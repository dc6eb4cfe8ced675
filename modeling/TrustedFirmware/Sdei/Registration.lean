import Mathlib.Data.Finset.Card
import Mathlib.Data.Fintype.Basic
import TrustedFirmware.Sdei.Nesting

/-!
# The count of registrations of a mapping

A PE that is turned on clears its private entries without a change of the counts
(`count_is_stale`). If no private event is registered on a PE that is turned on, then in every
run the count is the number of entries that are registered, so that an interrupt is released
when no PE is registered for its event, and only then (`count_is_registrations`).
-/

namespace TrustedFirmware.Sdei

open Lib Finset

variable {n : Nat} {p : Platform n} {s s' : Dispatcher n} {pe : Fin n} {r : MapRef} {m m' : EvMap}

/-! ### The registrations of a mapping -/

/-- Whose entries there are for an event: one for each PE, or one for all. -/
def owners (n : Nat) (shared : Bool) : Finset (Option (Fin n)) :=
  if shared then {none} else univ.map Function.Embedding.some

/-- The entries of a mapping that are registered. -/
def Dispatcher.registrations (s : Dispatcher n) (r : MapRef) : Finset (Option (Fin n)) :=
  (owners n r.shared).filter fun o => (s.entries (o, r.idx)).state.registered = true

variable {o : Option (Fin n)} {q : MapRef}

theorem mem_owners {shared : Bool} : o ∈ owners n shared ↔ o.isNone = shared := by
  cases shared <;> cases o <;> simp [owners]

theorem keyOf_mem_owners (pe : Fin n) (r : MapRef) : (keyOf pe r).1 ∈ owners n r.shared := by
  rw [mem_owners, keyOf]
  cases r.shared <;> rfl

theorem eq_of_mem_owners (ho : o ∈ owners n q.shared) (heq : (o, q.idx) = keyOf pe r) : q = r := by
  have hr := keyOf_mem_owners pe r
  rw [← heq, mem_owners] at hr
  rw [mem_owners] at ho
  have hidx : q.idx = r.idx := congrArg Prod.snd heq
  obtain ⟨shared, i⟩ := q
  obtain ⟨shared', i'⟩ := r
  simp_all

theorem mem_registrations : o ∈ s.registrations r ↔
      o ∈ owners n r.shared ∧ (s.entries (o, r.idx)).state.registered = true := by
  rw [Dispatcher.registrations, mem_filter]

theorem registrations_congr
    (h : ∀ k, (s'.entries k).state.registered = (s.entries k).state.registered) (q : MapRef) :
    s'.registrations q = s.registrations q := by
  ext o
  rw [mem_registrations, mem_registrations, h]

variable {k : Option (Fin n) × Nat}

variable {se : SdeiEntry}

theorem registered_setEntry (h : se.state.registered = (s.entries k).state.registered)
    (k' : Option (Fin n) × Nat) :
    ((s.setEntry k se).entries k').state.registered = (s.entries k').state.registered := by
  rw [entries_setEntry]
  split_ifs with hk
  · rw [hk, h]
  · rfl

theorem registrations_setEntry_of_ne (hne : q ≠ r) :
    (s.setEntry (keyOf pe r) se).registrations q = s.registrations q := by
  ext o
  rw [mem_registrations, mem_registrations, and_congr_right_iff]
  intro ho
  rw [entries_setEntry, if_neg fun heq => hne (eq_of_mem_owners ho heq)]

theorem card_registrations_register (hold : (s.entries (keyOf pe r)).state.registered = false)
    (hnew : se.state.registered = true) :
    ((s.setEntry (keyOf pe r) se).registrations r).card = (s.registrations r).card + 1 := by
  have hins : (s.setEntry (keyOf pe r) se).registrations r =
      insert (keyOf pe r).1 (s.registrations r) := by
    ext o
    rw [mem_insert, mem_registrations, mem_registrations, entries_setEntry]
    by_cases ho : o = (keyOf pe r).1
    · have hkey : (o, r.idx) = keyOf pe r := by rw [ho]; rfl
      rw [if_pos hkey, ho]
      simp [keyOf_mem_owners, hnew]
    · rw [if_neg fun heq => ho (congrArg Prod.fst heq)]
      simp [ho]
  rw [hins, card_insert_of_notMem]
  intro hmem
  cases (mem_registrations.mp hmem).2.symm.trans hold

theorem card_registrations_unregister (hold : (s.entries (keyOf pe r)).state.registered = true)
    (hnew : se.state.registered = false) :
    ((s.setEntry (keyOf pe r) se).registrations r).card + 1 = (s.registrations r).card := by
  -- Registering the old entry again takes the change back.
  have hback : (s.setEntry (keyOf pe r) se).setEntry (keyOf pe r) (s.entries (keyOf pe r)) = s := by
    simp [Dispatcher.setEntry]
  have hnow : ((s.setEntry (keyOf pe r) se).entries (keyOf pe r)).state.registered = false := by
    rw [entries_setEntry, if_pos rfl, hnew]
  have hcard := card_registrations_register hnow hold
  rw [hback] at hcard
  exact hcard.symm

/-! ### The invariant -/

/-- The counts are the numbers of registrations, and what is enabled is registered. -/
structure CountsOk (s : Dispatcher n) : Prop where
  priv : ∀ r m, s.map? r = some m → isEventPrivate m = !r.shared
  count : ∀ r m, s.map? r = some m → m.regCount = (s.registrations r).card
  enabled : ∀ k, (s.entries k).state.enabled = true → (s.entries k).state.registered = true

section

variable (h : CountsOk s)
include h

/-- Calls that register and unregister nothing, and change nothing in the mappings. -/
theorem CountsOk.keep (hmaps : s'.maps = s.maps)
    (hreg : ∀ k, (s'.entries k).state.registered = (s.entries k).state.registered)
    (hena : ∀ k, (s'.entries k).state.enabled = true → (s'.entries k).state.registered = true) :
    CountsOk s' := by
  have hmap := map?_congr hmaps
  refine ⟨?_, fun r m hm => ?_, hena⟩
  · rw [hmap]
    exact h.priv
  · rw [hmap] at hm
    rw [registrations_congr hreg]
    exact h.count r m hm

/-- **A change of one mapping**, with its count. -/
theorem CountsOk.remap (hmap : s.map? r = some m) (m' : EvMap)
    (hpriv : m'.flags.priv = m.flags.priv) (hmaps : s'.maps = (s.setMap r m').maps)
    (hoth : ∀ q, q ≠ r → s'.registrations q = s.registrations q)
    (hcnt : m'.regCount = (s'.registrations r).card)
    (hena : ∀ k, (s'.entries k).state.enabled = true → (s'.entries k).state.registered = true) :
    CountsOk s' := by
  refine ⟨fun q mq hq => ?_, fun q mq hq => ?_, hena⟩
  · rcases map?_of_setMap hmap hmaps hq with ⟨rfl, rfl⟩ | ⟨-, hq⟩
    · rw [← h.priv q m hmap]
      exact hpriv
    · exact h.priv q mq hq
  · rcases map?_of_setMap hmap hmaps hq with ⟨rfl, rfl⟩ | ⟨hqr, hq⟩
    · exact hcnt
    · rw [hoth q hqr]
      exact h.count q mq hq

/-- **A change of one entry**: what is enabled in it is registered. -/
theorem CountsOk.enabled_setEntry
    (hse : se.state.enabled = true → se.state.registered = true) (k' : Option (Fin n) × Nat)
    (hk' : ((s.setEntry k se).entries k').state.enabled = true) :
    ((s.setEntry k se).entries k').state.registered = true := by
  rw [entries_setEntry] at hk' ⊢
  split_ifs at hk' ⊢ with hk
  · exact hse hk'
  · exact h.enabled k' hk'

theorem CountsOk.setEntry (hmaps : s'.maps = s.maps) (hent : s'.entries = (s.setEntry k se).entries)
    (hreg : se.state.registered = (s.entries k).state.registered)
    (hse : se.state.enabled = true → se.state.registered = true) : CountsOk s' := by
  refine h.keep hmaps ?_ ?_
  · rw [hent]
    exact registered_setEntry hreg
  · rw [hent]
    exact h.enabled_setEntry hse

/-- What is neither in the mappings nor in the entries does not matter. -/
theorem CountsOk.congr (hmaps : s'.maps = s.maps)
    (hent : s'.entries = s.entries) : CountsOk s' := by
  refine h.keep hmaps (fun k => ?_) ?_
  · rw [hent]
  · rw [hent]
    exact h.enabled

theorem CountsOk.rebind (hmap : s.map? r = some m) {intr : Nat} {bound : Bool}
    (hmaps : s'.maps = (s.setMap r (setMapBound { m with intr := intr } bound)).maps)
    (hent : s'.entries = s.entries) : CountsOk s' := by
  have hreg : ∀ q, s'.registrations q = s.registrations q :=
    registrations_congr fun k => by rw [hent]
  refine h.remap hmap (setMapBound { m with intr := intr } bound) rfl hmaps
    (fun q _ => hreg q) ?_ ?_
  · rw [hreg]
    exact h.count r m hmap
  · rw [hent]
    exact h.enabled

theorem CountsOk.dispatched {origin : Origin}
    (hd : Dispatched p pe r m origin s s') : CountsOk s' := by
  obtain ⟨-, hst, -, ctx, ns, rfl⟩ := hd
  exact h.setEntry rfl rfl (by rw [hst]) fun _ => rfl

end

/-! ### Runs -/

/-- No private event is registered on a PE that is turned on. -/
def onUnregistered (s : Dispatcher n) : Event n → Bool
  | .cpuOn pe =>
    (List.range (s.maps false).length).all fun i => !(s.entries (some pe, i)).state.registered
  | _ => true

theorem registered_cpuOn (hok : onUnregistered s (.cpuOn pe) = true) (k : Option (Fin n) × Nat) :
    ((Sdei.cpuOn s pe).entries k).state.registered = (s.entries k).state.registered := by
  obtain ⟨o, i⟩ := k
  rw [cpuOn_entries]
  by_cases hk : o = some pe ∧ i < (s.maps false).length
  · obtain ⟨rfl, hi⟩ := hk
    have hall := List.all_eq_true.mp hok i (List.mem_range.mpr hi)
    simp [SdeiEntry.zero, hi, Bool.not_eq_true' _ ▸ hall]
  · rw [if_neg hk]

theorem CountsOk.cpuOn (h : CountsOk s) (hok : onUnregistered s (.cpuOn pe) = true) :
    CountsOk (Sdei.cpuOn s pe) := by
  refine h.keep rfl (registered_cpuOn hok) fun k hen => ?_
  rw [cpuOn_entries] at hen ⊢
  by_cases hk : k.1 = some pe ∧ k.2 < (s.maps false).length
  · rw [if_pos hk] at hen
    cases hen
  · rw [if_neg hk] at hen ⊢
    exact h.enabled k hen

variable {event : Event n}

theorem CountsOk.move (h : CountsOk s) (hok : onUnregistered s event = true)
    (hmove : Move p s event s') : CountsOk s' := by
  cases hmove with
  | refuse => exact h
  | @register pe _ ep arg _ mpidr f _ _ r m hmap hst =>
    rw [entryKey_eq_keyOf (h.priv r m hmap)] at hst ⊢
    refine h.remap hmap { m with regCount := m.regCount + 1 } rfl rfl
      (fun q hq => registrations_setEntry_of_ne hq) ?_ (h.enabled_setEntry fun hen => (nomatch hen))
    have hold : (s.entries (keyOf pe r)).state.registered = false := by rw [hst]
    have hnew : (⟨ep, arg, mpidr &&& mpidrAffinityMask, f, ⟨false, false, true⟩⟩ :
        SdeiEntry).state.registered = true := rfl
    calc m.regCount + 1 = ((s.registrations r).card + 1 : Nat) := by rw [h.count r m hmap]; rfl
      _ = _ := congrArg Nat.cast (card_registrations_register hold hnew).symm
  | @unregister pe _ r m hmap _ hreg =>
    rw [entryKey_eq_keyOf (h.priv r m hmap)] at hreg ⊢
    refine h.remap hmap { m with regCount := m.regCount - 1 } rfl rfl
      (fun q hq => registrations_setEntry_of_ne hq) ?_ (h.enabled_setEntry fun hen => (nomatch hen))
    have hnew : (clearEventEntries { s.entries (keyOf pe r) with
        state := ⟨(s.entries (keyOf pe r)).state.running, false, false⟩ }).state.registered =
        false := rfl
    have hcnt := h.count r m hmap
    rw [← card_registrations_unregister hreg hnew, Int.natCast_succ] at hcnt
    exact Int.sub_eq_iff_eq_add.mpr hcnt
  | enable _ hreg | disable _ hreg => exact h.setEntry rfl rfl rfl fun _ => hreg
  | routingSet _ _ _ _ _ hst => exact h.setEntry rfl rfl rfl fun _ => by rw [hst]
  | claim _ hmap | release hmap => exact h.rebind hmap rfl rfl
  | complete => exact h.setEntry rfl rfl rfl (h.enabled _)
  | masked _ _ hmsk =>
    obtain ⟨-, -, rfl⟩ := hmsk
    exact h.congr rfl rfl
  | interrupt _ _ _ hd | dispatch _ hd => exact h.dispatched hd
  | bind | bindTo | mask | unmask | cpuOff | wakeup => exact h.congr rfl rfl
  | cpuOn => exact h.cpuOn hok

theorem CountsOk.step (h : CountsOk s) (hok : onUnregistered s event = true)
    (hstep : s.step p event = some s') : CountsOk s' := by
  refine step_moves hstep (h.move hok) h (fun event' t t' hpart ht => ht.move ?_) id
  cases hpart <;> rfl

theorem Dispatcher.Started.countsOk (h : s.Started) : CountsOk s := by
  refine ⟨fun r m hmap => (h.maps r m hmap).priv, fun r m hmap => ?_, fun k hen => ?_⟩
  · have hemp : s.registrations r = ∅ := by
      ext o
      simp [mem_registrations, h.entries, SdeiEntry.zero]
    rw [(h.maps r m hmap).count, hemp, card_empty]
    rfl
  · rw [h.entries] at hen
    cases hen

theorem CountsOk.not_registered (h : CountsOk s) (hmap : s.map? r = some m)
    (hnone : s.registrations r = ∅) (pe : Fin n) :
    (s.entries (entryKey pe r m)).state.registered = false := by
  rw [Bool.eq_false_iff, entryKey_eq_keyOf (h.priv r m hmap)]
  intro hreg
  have hmem : (keyOf pe r).1 ∈ s.registrations r :=
    mem_registrations.mpr ⟨keyOf_mem_owners pe r, hreg⟩
  rw [hnone] at hmem
  exact absurd hmem (notMem_empty _)

/-- **The count is the number of registrations** in every run in which PEs are turned on
only while no private event is registered on them. A bound dynamic event that the PE does
not run is then released if no PE is registered for it, and while one is, the release is
denied. -/
theorem count_is_registrations {table : Bool → List EvMap} {g : Gic n} {events : List (Event n)}
    (hinit : sdeiInit p table g = some s) (hrun : run (Dispatcher.step p) s events = some s')
    (hok : Along (Dispatcher.step p) (fun s event => onUnregistered s event = true) s events) :
    (∀ r m, s'.map? r = some m → m.regCount = (s'.registrations r).card) ∧
    ∀ pe evNum active r m, s'.findEventMap evNum = some (r, m) → isMapDynamic m = true →
      (s'.registrations r = ∅ → isMapBound m = true → active m.intr = false →
        (s'.entries (entryKey pe r m)).state.running = false →
        (sdeiInterruptRelease s' pe evNum active).2 = 0) ∧
      (s'.registrations r ≠ ∅ → sdeiInterruptRelease s' pe evNum active = (s', sdeiEdeny)) := by
  have h : CountsOk s' := run_invariant_along (fun _ _ _ => CountsOk.step)
    (sdeiInit_started hinit).countsOk hok hrun
  refine ⟨h.count, fun pe evNum active r m hfind hdyn => ⟨fun hnone hbd hact hru => ?_,
    fun hsome => ?_⟩⟩
  · have hidle : canSdeiStateTrans (s'.entries (entryKey pe r m)).state .release =
        some ⟨false, false, false⟩ := by
      have hunr := h.not_registered (findEventMap_eq_some hfind).1 hnone pe
      have hdis : (s'.entries (entryKey pe r m)).state.enabled = false := by
        rw [Bool.eq_false_iff]
        exact fun hen => absurd ((h.enabled _ hen).symm.trans hunr) (by decide)
      cases hst : (s'.entries (entryKey pe r m)).state with
      | mk =>
        rw [hst] at hunr hdis hru
        subst hunr hdis hru
        rfl
    have hcnt := h.count r m (findEventMap_eq_some hfind).1
    rw [hnone, card_empty] at hcnt
    simp [sdeiInterruptRelease, hfind, hdyn, hcnt, hidle, hbd, hact]
  · have hcnt : m.regCount ≠ 0 := by
      rw [h.count r m (findEventMap_eq_some hfind).1]
      exact_mod_cast card_ne_zero.mpr (nonempty_iff_ne_empty.mpr hsome)
    simp [sdeiInterruptRelease, hfind, hdyn, hcnt]

/-- A PE binds an interrupt to the first mapping that is free, of four. -/
def bindFirst (pe : Fin 2) (intr : Nat) : List (Event 2) :=
  .bind pe intr :: List.replicate 10 (.bindStep pe)

/-- Two PEs register the event of an interrupt, one of them goes off without it and comes
back. -/
def bindRegister : List (Event 2) :=
  [.cpuOn 1] ++ bindFirst 0 27 ++
    [.register 0 100 0x1000 0 0 0 true false, .register 1 100 0x1000 0 0 0 true false,
      .unregister 1 100, .cpuOff 1, .cpuOn 1]

theorem count_is_registrations_one :
    ∃ s', run (Dispatcher.step (samplePlatform true)) (sampleStart true) bindRegister = some s' ∧
      (s'.map? ⟨false, 3⟩).map EvMap.regCount = some 1 ∧
      ∀ m, s'.map? ⟨false, 3⟩ = some m → m.regCount = (s'.registrations ⟨false, 3⟩).card := by
  have hok : Along (Dispatcher.step (samplePlatform true))
      (fun s event => onUnregistered s event = true) (sampleStart true) bindRegister := by
    decide +kernel
  refine exists_some_imp (by decide +kernel) fun s' hrun hend => ⟨hend, ?_⟩
  exact (count_is_registrations (sampleStart_init true) hrun hok).1 ⟨false, 3⟩

/-- A PE binds and registers an event, goes off and comes back. -/
def offRegistered : List (Event 2) :=
  [.cpuOn 1] ++ bindFirst 1 27 ++ [.register 1 100 0x1000 0 0 0 true false, .cpuOff 1, .cpuOn 1]

/-- **The count is stale** after a PE that was registered went off and came back: no PE is
registered for the event, its count is 1, and its interrupt can not be released. -/
theorem count_is_stale :
    ∃ s', run (Dispatcher.step (samplePlatform true)) (sampleStart true) offRegistered = some s' ∧
      s'.registrations ⟨false, 3⟩ = ∅ ∧
      (s'.map? ⟨false, 3⟩).map EvMap.regCount = some 1 ∧
      ∀ pe, (sdeiInterruptRelease s' pe 100 fun _ => false).2 = sdeiEdeny := by
  decide +kernel

end TrustedFirmware.Sdei
