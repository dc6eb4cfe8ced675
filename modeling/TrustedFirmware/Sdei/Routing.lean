import TrustedFirmware.Sdei.Registration

/-!
# The interrupts of registered events

Where they are routed to, and whether they are forwarded. `SDEI_EVENT_ROUTING_SET`
programs the interrupt controller but does not record the new affinity, so that a shared
event that a PE has put off while it was masked may stay disabled when the PE is
unmasked (`affinity_not_updated`). If the routing is only ever set to the affinity that
was given at registration, then in every run the affinity that is recorded is the one
that is programmed, and no event that is enabled stays lost after the PE that it targets
is unmasked (`no_enable_lost`).
-/

namespace TrustedFirmware.Sdei

open Lib Dispatcher SdeiEntry Option

variable {n : Nat} {p : Platform n} {s s' : Dispatcher n} {pe : Fin n} {r : MapRef} {m m' : EvMap}
  {o : Option (Fin n)}

/-! ### The invariant -/

/-- The mapping is bound and registered: its interrupt belongs to the event, for a PE or
for all of them. -/
def Owns (s : Dispatcher n) (r : MapRef) (m : EvMap) (o : Option (Fin n)) : Prop :=
  s.map? r = some m ∧ isMapBound m = true ∧ o ∈ s.registrations r

/-- The interrupt will be enabled when its target is unmasked: the PE of a private event,
or the PE that a shared event is routed to. -/
def awaitsUnmask (p : Platform n) (s : Dispatcher n) : Option (Fin n) × Nat → Prop
  | (some pe, _) => (s.cpus pe).pendingEnables = true
  | (none, i) => (s.entries (none, i)).regFlags = sdeiRegfRmPe ∧
    ∀ pe, p.mpidr pe = (s.entries (none, i)).affinity → (s.cpus pe).pendingEnables = true

/-- Where the interrupt of a shared event should be routed to, by its entry. -/
def routingOf (se : SdeiEntry) : Routing :=
  if se.regFlags = sdeiRegfRmAny then .any else .pe se.affinity

/-- What holds of an interrupt that belongs to an event. -/
structure OwnerOk (p : Platform n) (s : Dispatcher n) (r : MapRef) (m : EvMap)
    (o : Option (Fin n)) : Prop where
  el3 : s.gic.intrType o m.intr = .el3
  routed : o = none → s.gic.routing m.intr = routingOf (s.entries (o, r.idx))
  forwarded : (s.entries (o, r.idx)).state.enabled = true →
    s.gic.enabled o m.intr = true ∨ awaitsUnmask p s (o, r.idx)

/-- A mapping is of the kind of its array, and so is the interrupt that it is bound to. -/
structure MapOk (r : MapRef) (m : EvMap) : Prop where
  priv : isEventPrivate m = !r.shared
  bound : isMapBound m = true → platIcIsSpi m.intr = r.shared
  free : isMapBound m = false → platIcIsSgi m.intr = true

/-- An entry has one of the two routing flags, and without a registration no settings. -/
structure SettingsOk (se : SdeiEntry) : Prop where
  flags : se.regFlags = sdeiRegfRmAny ∨ se.regFlags = sdeiRegfRmPe
  unset : se.state.registered = false → se.state.enabled = false ∧ se.regFlags = sdeiRegfRmAny

structure RoutingOk (p : Platform n) (s : Dispatcher n) : Prop where
  maps : ∀ r m, s.map? r = some m → MapOk r m
  settings : ∀ k, SettingsOk (s.entries k)
  owner : ∀ r m o, Owns s r m o → OwnerOk p s r m o
  unique : ∀ r r' m m' o, Owns s r m o → Owns s r' m' o → m.intr = m'.intr → r = r'

/-- The interrupt is in the banks of the PE or of the distributor, as its entry is. -/
theorem bank_eq (h : platIcIsSpi m.intr = r.shared) (pe : Fin n) :
    bank pe m.intr = (keyOf pe r).1 := by
  rw [bank, keyOf, h]

/-- The part of an entry that routing and forwarding depend on. -/
def SdeiEntry.settings (se : SdeiEntry) : U64 × U64 × Bool × Bool :=
  (se.affinity, se.regFlags, se.state.enabled, se.state.registered)

/-- An interrupt as it was. -/
def SameAt (g g' : Gic n) (o : Option (Fin n)) (intr : Nat) : Prop :=
  g'.intrType o intr = g.intrType o intr ∧ (o = none → g'.routing intr = g.routing intr) ∧
    (g.enabled o intr = true → g'.enabled o intr = true)

variable {k : Option (Fin n) × Nat} {g : Gic n} {i intr : Nat} {flags mpidr : U64} {se : SdeiEntry}

theorem awaitsUnmask.mono (h : awaitsUnmask p s k)
    (hse : (s'.entries k).settings = (s.entries k).settings)
    (hpend : ∀ pe, (s.cpus pe).pendingEnables = true → (s'.cpus pe).pendingEnables = true) :
    awaitsUnmask p s' k := by
  simp only [settings, Prod.mk.injEq] at hse
  obtain ⟨haff, hfl, -, -⟩ := hse
  obtain ⟨_ | pe, i⟩ := k
  · obtain ⟨hrm, hall⟩ := h
    refine ⟨hfl.trans hrm, fun pe hpe => hpend pe (hall pe ?_)⟩
    rw [hpe, haff]
  · exact hpend pe h

theorem OwnerOk.keep (h : OwnerOk p s r m o) (hintr : m'.intr = m.intr)
    (hse : (s'.entries (o, r.idx)).settings = (s.entries (o, r.idx)).settings)
    (hgic : SameAt s.gic s'.gic o m.intr)
    (hpend : ∀ pe, (s.cpus pe).pendingEnables = true → (s'.cpus pe).pendingEnables = true) :
    OwnerOk p s' r m' o := by
  obtain ⟨htype, hrt, hena⟩ := hgic
  have hpts := hse
  simp only [settings, Prod.mk.injEq] at hpts
  obtain ⟨haff, hfl, hen, -⟩ := hpts
  refine ⟨?_, fun ho => ?_, fun hon => ?_⟩
  · rw [hintr, htype]
    exact h.el3
  · rw [hintr, hrt ho, h.routed ho, routingOf, routingOf, haff, hfl]
  · rw [hintr]
    rcases h.forwarded (hen.symm.trans hon) with hfwd | haw
    · exact .inl (hena hfwd)
    · exact .inr (haw.mono hse hpend)

/-- The mappings as they were, apart from the counts. -/
def SameMaps (s s' : Dispatcher n) : Prop :=
  ∀ r m', s'.map? r = some m' → ∃ m, s.map? r = some m ∧ m'.intr = m.intr ∧
    isMapBound m' = isMapBound m ∧ isEventPrivate m' = isEventPrivate m

theorem sameMaps_of_eq (h : s'.maps = s.maps) : SameMaps s s' := by
  intro r m hm
  rw [map?_congr h] at hm
  exact ⟨m, hm, rfl, rfl, rfl⟩

theorem sameMaps_setMap (hmap : s.map? r = some m) {count : Int}
    (hmaps : s'.maps = (s.setMap r { m with regCount := count }).maps) : SameMaps s s' := by
  intro q mq hq
  rcases map?_of_setMap hmap hmaps hq with ⟨rfl, rfl⟩ | ⟨-, hq⟩
  · exact ⟨m, hmap, rfl, rfl, rfl⟩
  · exact ⟨mq, hq, rfl, rfl, rfl⟩

theorem RoutingOk.maps_of_same (h : RoutingOk p s) (hmaps : SameMaps s s') (r : MapRef) (m' : EvMap)
    (hmap' : s'.map? r = some m') : MapOk r m' := by
  obtain ⟨m, hmap, hintr, hbd, hpriv⟩ := hmaps r m' hmap'
  obtain ⟨hp, hb, hf⟩ := h.maps r m hmap
  refine ⟨hpriv.trans hp, fun hyes => ?_, fun hno => ?_⟩
  · rw [hintr]
    exact hb (hbd.symm.trans hyes)
  · rw [hintr]
    exact hf (hbd.symm.trans hno)

/-- An owner whose entry is as before was an owner before. -/
theorem Owns.of_same (h : Owns s' r m' o) (hmaps : SameMaps s s')
    (hse : (s'.entries (o, r.idx)).settings = (s.entries (o, r.idx)).settings) :
    ∃ m, Owns s r m o ∧ m'.intr = m.intr := by
  obtain ⟨hmap', hbound', ho⟩ := h
  obtain ⟨m, hmap, hintr, hbd, -⟩ := hmaps r m' hmap'
  simp only [settings, Prod.mk.injEq] at hse
  obtain ⟨hown, hreg⟩ := mem_registrations.mp ho
  exact ⟨m, ⟨hmap, hbd.symm.trans hbound',
    mem_registrations.mpr ⟨hown, hse.2.2.2.symm.trans hreg⟩⟩, hintr⟩

/-! ### Interrupts -/

theorem SameAt.refl (g : Gic n) (o : Option (Fin n)) (i : Nat) : SameAt g g o i :=
  ⟨rfl, fun _ => rfl, id⟩

theorem sameAt_setEnabled {on : Bool} (hne : ¬ (o = bank pe intr ∧ i = intr)) :
    SameAt g (g.setEnabled pe intr on) o i := by
  refine ⟨rfl, fun _ => rfl, fun hon => ?_⟩
  exact (if_neg hne).trans hon

theorem sameAt_setType {type : IntrType} (hne : ¬ (o = bank pe intr ∧ i = intr)) :
    SameAt g (g.setType pe intr type) o i :=
  ⟨if_neg hne, fun _ => rfl, id⟩

theorem sameAt_setSpiRouting (hne : ¬ (o = none ∧ i = intr)) :
    SameAt g (g.setSpiRouting intr flags mpidr) o i := by
  refine ⟨rfl, fun ho => ?_, id⟩
  exact Function.update_of_ne (fun hi => hne ⟨ho, hi⟩) _ _

theorem SameAt.trans {g' g'' : Gic n} (h : SameAt g g' o i) (h' : SameAt g' g'' o i) :
    SameAt g g'' o i :=
  ⟨h'.1.trans h.1, fun ho => (h'.2.1 ho).trans (h.2.1 ho), fun hon => h'.2.2 (h.2.2 hon)⟩

theorem sameAt_registerInterrupt (hbank : isEventShared m = true → bank pe m.intr = none)
    (hne : ¬ (o = bank pe m.intr ∧ i = m.intr)) :
    SameAt g (registerInterrupt pe g m flags mpidr) o i := by
  have hfst : SameAt g ((g.setEnabled pe m.intr false).setType pe m.intr .el3) o i :=
    (sameAt_setEnabled hne).trans (sameAt_setType hne)
  unfold registerInterrupt
  split_ifs with hsh
  · exact hfst.trans (sameAt_setSpiRouting (by rw [← hbank hsh]; exact hne))
  · exact hfst

theorem registerInterrupt_el3 (g : Gic n) (flags mpidr : U64) :
    (registerInterrupt pe g m flags mpidr).intrType (bank pe m.intr) m.intr = .el3 := by
  unfold registerInterrupt
  split_ifs
  all_goals exact if_pos ⟨rfl, rfl⟩

theorem setSpiRouting_self (g : Gic n) (intr : Nat) (flags mpidr : U64) :
    (g.setSpiRouting intr flags mpidr).routing intr =
      if flags = sdeiRegfRmAny then .any else .pe (mpidr &&& mpidrAffinityMask) := by
  exact Function.update_self ..

/-- The other owners have other interrupts than an owner. -/
theorem RoutingOk.other_interrupt (h : RoutingOk p s) (hown : Owns s r m (keyOf pe r).1)
    {q : MapRef} {mq : EvMap} (ho : Owns s q mq o) (hk : (o, q.idx) ≠ keyOf pe r) :
    ¬ (o = bank pe m.intr ∧ mq.intr = m.intr) := by
  intro hsame
  rw [bank_eq ((h.maps r m hown.1).bound hown.2.1)] at hsame
  obtain ⟨rfl, hintr⟩ := hsame
  obtain rfl := h.unique q r mq m _ ho hown hintr
  exact hk rfl

theorem settings_setEntry (hse : SettingsOk se) (h : ∀ k, SettingsOk (s.entries k))
    (k' : Option (Fin n) × Nat) :
    SettingsOk ((s.setEntry k se).entries k') := by
  rw [entries_setEntry]
  split_ifs with hk
  · exact hse
  · exact h k'

theorem entries_setEntry_self : (s.setEntry k se).entries k = se :=
  (entries_setEntry k).trans (if_pos rfl)

/-- **A call that changes one entry** and the interrupt of its mapping: the other owners
have other interrupts. -/
theorem RoutingOk.touch (h : RoutingOk p s) (pe : Fin n) (r : MapRef) (hmaps : SameMaps s s')
    (hent : s'.entries = (s.setEntry (keyOf pe r) se).entries) (hcpus : s'.cpus = s.cpus)
    (hse : SettingsOk se)
    (hgic : ∀ q mq o, Owns s q mq o → (o, q.idx) ≠ keyOf pe r → SameAt s.gic s'.gic o mq.intr)
    (hself : ∀ m', Owns s' r m' (keyOf pe r).1 → OwnerOk p s' r m' (keyOf pe r).1)
    (hnew : ∀ q mq m', Owns s q mq (keyOf pe r).1 → Owns s' r m' (keyOf pe r).1 →
      mq.intr = m'.intr → q = r) : RoutingOk p s' := by
  have hoth : ∀ {k}, k ≠ keyOf pe r → (s'.entries k).settings = (s.entries k).settings := by
    intro k hk
    rw [hent, entries_setEntry, if_neg hk]
  -- An owner is the one that is touched, or was one before.
  have hcases : ∀ {q mq o}, Owns s' q mq o → (q = r ∧ o = (keyOf pe r).1) ∨
      (o, q.idx) ≠ keyOf pe r ∧ ∃ m₀, Owns s q m₀ o ∧ mq.intr = m₀.intr := by
    intro q mq o ho
    by_cases hk : (o, q.idx) = keyOf pe r
    · exact .inl ⟨eq_of_mem_owners (mem_registrations.mp ho.2.2).1 hk, congrArg Prod.fst hk⟩
    · exact .inr ⟨hk, ho.of_same hmaps (hoth hk)⟩
  refine ⟨h.maps_of_same hmaps, fun k => hent ▸ settings_setEntry hse h.settings k,
    fun q mq o ho => ?_, fun q q' mq mq' o ho ho' hintr => ?_⟩
  · rcases hcases ho with ⟨rfl, rfl⟩ | ⟨hk, m₀, ho₀, hintr⟩
    · exact hself mq ho
    · exact (h.owner q m₀ o ho₀).keep hintr (hoth hk) (hgic q m₀ o ho₀ hk)
        fun _ hpend => hcpus ▸ hpend
  · rcases hcases ho with ⟨rfl, rfl⟩ | ⟨-, m₀, ho₀, hintr₀⟩
    · rcases hcases ho' with ⟨rfl, -⟩ | ⟨-, m₁, ho₁, hintr₁⟩
      · rfl
      · exact (hnew q' m₁ mq ho₁ ho (hintr₁.symm.trans hintr.symm)).symm
    · rcases hcases ho' with ⟨rfl, rfl⟩ | ⟨-, m₁, ho₁, hintr₁⟩
      · exact hnew q m₀ mq' ho₀ ho' (hintr₀.symm.trans hintr)
      · exact h.unique q q' m₀ m₁ o ho₀ ho₁ (hintr₀.symm.trans (hintr.trans hintr₁))

/-! ### What steps preserve -/

variable {count : Int}

theorem RoutingOk.register (h : RoutingOk p s) {ep arg f : U64} (hmap : s.map? r = some m)
    (hns : isMapBound m = true → s.gic.intrType (bank pe m.intr) m.intr = .ns)
    (hfl : f = sdeiRegfRmAny ∨ f = sdeiRegfRmPe)
    (hmaps : s'.maps = (s.setMap r { m with regCount := count }).maps)
    (hent : s'.entries = (s.setEntry (entryKey pe r m)
      ⟨ep, arg, mpidr &&& mpidrAffinityMask, f, ⟨false, false, true⟩⟩).entries)
    (hcpus : s'.cpus = s.cpus)
    (hgic : s'.gic = if isMapBound m then registerInterrupt pe s.gic m f mpidr else s.gic) :
    RoutingOk p s' := by
  obtain ⟨hpriv, hkind, -⟩ := h.maps r m hmap
  rw [entryKey_eq_keyOf hpriv] at hent
  have hread : s'.map? r = some { m with regCount := count } := by
    rw [map?_congr hmaps, map?_setMap hmap, if_pos rfl]
  -- No owner has the interrupt, since it belongs to the normal world.
  have hfree : isMapBound m = true → ∀ q mq, Owns s q mq (bank pe m.intr) → mq.intr ≠ m.intr := by
    intro hbd q mq ho hintr
    have hel3 := (h.owner q mq _ ho).el3
    rw [hintr, hns hbd] at hel3
    cases hel3
  refine h.touch pe r (sameMaps_setMap hmap hmaps) hent hcpus
    ⟨hfl, fun hno => (nomatch hno)⟩ (fun q mq o ho hk => ?_) (fun m' ho => ?_)
    fun q mq m' ho ho' hintr => ?_
  · rw [hgic]
    split_ifs with hbd
    · refine sameAt_registerInterrupt (fun hsh => ?_) fun hsame => ?_
      · have hnot : isEventPrivate m = false := by simpa [isEventShared] using hsh
        rw [bank_eq (hkind hbd), keyOf, if_pos]
        simpa [hnot] using hpriv
      · obtain ⟨rfl, hintr⟩ := hsame
        exact hfree hbd q mq ho hintr
    · exact SameAt.refl ..
  · cases hread.symm.trans ho.1
    have hbd : isMapBound m = true := ho.2.1
    have hkey : ((keyOf pe r).1, r.idx) = keyOf pe r := rfl
    rw [if_pos hbd] at hgic
    refine ⟨?_, fun hnone => ?_, fun hon => ?_⟩
    · rw [hgic, ← bank_eq (hkind hbd)]
      exact registerInterrupt_el3 ..
    · have hsh : isEventShared m = true := by
        rw [isEventShared, hpriv, Bool.not_not, ← mem_owners.mp (keyOf_mem_owners pe r), hnone]
        rfl
      rw [hkey, hent, entries_setEntry_self, hgic, registerInterrupt, if_pos hsh]
      exact setSpiRouting_self ..
    · rw [hkey, hent, entries_setEntry_self] at hon
      cases hon
  · cases hread.symm.trans ho'.1
    have hbd : isMapBound m = true := ho'.2.1
    rw [← bank_eq (hkind hbd)] at ho
    exact absurd hintr (hfree hbd q mq ho)

theorem RoutingOk.unregister (h : RoutingOk p s) (hmap : s.map? r = some m)
    (hreg : (s.entries (entryKey pe r m)).state.registered = true)
    (hmaps : s'.maps = (s.setMap r { m with regCount := count }).maps)
    (hent : s'.entries = (s.setEntry (entryKey pe r m) (clearEventEntries se)).entries)
    (hse : se.state.registered = false ∧ se.state.enabled = false) (hcpus : s'.cpus = s.cpus)
    (hgic : s'.gic = if isMapBound m then
      (s.gic.setEnabled pe m.intr false).setType pe m.intr .ns else s.gic) : RoutingOk p s' := by
  rw [entryKey_eq_keyOf (h.maps r m hmap).priv] at hent hreg
  have hgone : ∀ m', ¬ Owns s' r m' (keyOf pe r).1 := by
    intro m' ho
    have hyes : (s'.entries (keyOf pe r)).state.registered = true := (mem_registrations.mp ho.2.2).2
    rw [hent, entries_setEntry_self] at hyes
    cases hyes.symm.trans hse.1
  refine h.touch pe r (sameMaps_setMap hmap hmaps) hent hcpus
    ⟨.inl rfl, fun _ => ⟨hse.2, rfl⟩⟩ (fun q mq o ho hk => ?_)
    (fun m' ho => absurd ho (hgone m')) fun q mq m' _ ho => absurd ho (hgone m')
  rw [hgic]
  split_ifs with hbd
  · have hown : Owns s r m (keyOf pe r).1 :=
      ⟨hmap, hbd, mem_registrations.mpr ⟨keyOf_mem_owners pe r, hreg⟩⟩
    have hne := h.other_interrupt hown ho hk
    exact (sameAt_setEnabled hne).trans (sameAt_setType hne)
  · exact SameAt.refl ..

section

variable (h : RoutingOk p s)
include h

theorem RoutingOk.setEvent (on : Bool) (hmap : s.map? r = some m)
    (hreg : (s.entries (entryKey pe r m)).state.registered = true) :
    RoutingOk p (s.setEvent pe r m on) := by
  obtain ⟨hpriv, hkind, -⟩ := h.maps r m hmap
  unfold Dispatcher.setEvent
  rw [entryKey_eq_keyOf hpriv] at hreg ⊢
  have hown : isMapBound m = true → Owns s r m (keyOf pe r).1 := fun hbd =>
    ⟨hmap, hbd, mem_registrations.mpr ⟨keyOf_mem_owners pe r, hreg⟩⟩
  refine h.touch pe r (sameMaps_of_eq rfl) rfl rfl
    ⟨(h.settings _).flags, fun hno => absurd (hno.symm.trans hreg) (by decide)⟩
    (fun q mq o ho hk => ?_) (fun m' ho => ?_) fun q mq m' ho ho' hintr => ?_
  · split_ifs with hch
    · exact sameAt_setEnabled (h.other_interrupt (hown hch.1) ho hk)
    · exact SameAt.refl ..
  · cases hmap.symm.trans ho.1
    have hbd : isMapBound m = true := ho.2.1
    obtain ⟨hel3, hrtd, hfwd⟩ := h.owner r m _ (hown hbd)
    have hkey : ((keyOf pe r).1, r.idx) = keyOf pe r := rfl
    rw [hkey] at hrtd hfwd
    refine ⟨?_, fun hnone => ?_, fun hon => ?_⟩
    · split_ifs
      all_goals exact hel3
    · rw [hkey, entries_setEntry_self]
      split_ifs
      all_goals exact hrtd hnone
    · rw [hkey] at hon ⊢
      rw [entries_setEntry_self] at hon
      obtain rfl : on = true := hon
      by_cases hbef : (s.entries (keyOf pe r)).state.enabled = true
      · -- It was enabled, and nothing has changed.
        rw [if_neg fun hch => hch.2 hbef]
        refine (hfwd hbef).imp_right fun haw => haw.mono ?_ fun _ => id
        rw [entries_setEntry_self, SdeiEntry.settings, SdeiEntry.settings, hbef]
      · rw [if_pos ⟨hbd, hbef⟩, ← bank_eq (hkind hbd)]
        exact .inl (if_pos ⟨rfl, rfl⟩)
  · cases hmap.symm.trans ho'.1
    exact h.unique q r mq m _ ho (hown ho'.2.1) hintr

/-- The routing is set to what is recorded. -/
theorem RoutingOk.routingSet (hmap : s.map? r = some m)
    (hsh : isEventPrivate m = false) (hbd : isMapBound m = true)
    (hfl : flags = sdeiRegfRmAny ∨ flags = sdeiRegfRmPe)
    (hst : (s.entries (entryKey pe r m)).state = ⟨false, false, true⟩)
    (hrec : flags = sdeiRegfRmPe →
      mpidr &&& mpidrAffinityMask = (s.entries (entryKey pe r m)).affinity) :
    RoutingOk p { s.setEntry (entryKey pe r m) { s.entries (entryKey pe r m) with
      regFlags := flags } with gic := s.gic.setSpiRouting m.intr flags mpidr } := by
  obtain ⟨hpriv, hkind, -⟩ := h.maps r m hmap
  rw [entryKey_eq_keyOf hpriv] at hst hrec ⊢
  have hown : Owns s r m (keyOf pe r).1 :=
    ⟨hmap, hbd, mem_registrations.mpr ⟨keyOf_mem_owners pe r, congrArg EvState.registered hst⟩⟩
  have hbank : bank pe m.intr = none := by
    have hr : r.shared = true := by simpa [hsh] using hpriv
    rw [bank_eq (hkind hbd), keyOf, if_pos hr]
  have hse : SettingsOk { s.entries (keyOf pe r) with regFlags := flags } := by
    refine ⟨hfl, fun hno => absurd hno ?_⟩
    rw [hst]
    decide
  refine h.touch pe r (sameMaps_of_eq rfl) rfl rfl hse (fun q mq o ho hk => ?_) (fun m' ho => ?_)
    fun q mq m' ho ho' hintr => ?_
  · refine sameAt_setSpiRouting ?_
    rw [← hbank]
    exact h.other_interrupt hown ho hk
  · cases hmap.symm.trans ho.1
    have hkey : ((keyOf pe r).1, r.idx) = keyOf pe r := rfl
    refine ⟨(h.owner r m _ hown).el3, fun _ => ?_, fun hon => ?_⟩
    · rw [hkey, entries_setEntry_self]
      refine (setSpiRouting_self ..).trans ?_
      rcases hfl with rfl | rfl
      · rfl
      · rw [hrec rfl]
        rfl
    · rw [hkey, entries_setEntry_self, hst] at hon
      cases hon
  · cases hmap.symm.trans ho'.1
    exact h.unique q r mq m _ ho hown hintr

/-- **Calls that change no interrupt**, and no settings of a registered event. -/
theorem RoutingOk.keep (hmaps : ∀ r m, s'.map? r = some m → MapOk r m)
    (hset : ∀ k, SettingsOk (s'.entries k))
    (hown : ∀ r m' o, Owns s' r m' o → ∃ m, Owns s r m o ∧ m'.intr = m.intr ∧
      (s'.entries (o, r.idx)).settings = (s.entries (o, r.idx)).settings)
    (hpend : ∀ pe, (s.cpus pe).pendingEnables = true → (s'.cpus pe).pendingEnables = true)
    (hgic : ∀ o i, SameAt s.gic s'.gic o i) : RoutingOk p s' := by
  refine ⟨hmaps, hset, fun r m' o ho => ?_, fun r r' m m' o ho ho' hintr => ?_⟩
  · obtain ⟨m, hm, hintr, hse⟩ := hown r m' o ho
    exact (h.owner r m o hm).keep hintr hse (hgic o m.intr) hpend
  · obtain ⟨m₀, ho₀, hintr₀, -⟩ := hown r m o ho
    obtain ⟨m₁, ho₁, hintr₁, -⟩ := hown r' m' o ho'
    exact h.unique r r' m₀ m₁ o ho₀ ho₁ (hintr₀.symm.trans (hintr.trans hintr₁))

/-- As `keep`, where the settings of all entries are as before. -/
theorem RoutingOk.keep_settings (hmaps : s'.maps = s.maps)
    (hent : ∀ k, (s'.entries k).settings = (s.entries k).settings)
    (hpend : ∀ pe, (s'.cpus pe).pendingEnables = (s.cpus pe).pendingEnables)
    (hgic : ∀ o i, SameAt s.gic s'.gic o i) : RoutingOk p s' := by
  have hsame : SameMaps s s' := sameMaps_of_eq hmaps
  refine h.keep (h.maps_of_same hsame) (fun k => ?_) (fun r m' o ho => ?_) (fun pe => ?_) hgic
  · have hk := hent k
    simp only [SdeiEntry.settings, Prod.mk.injEq] at hk
    obtain ⟨-, hfl, hen, hreg⟩ := hk
    refine ⟨?_, fun hno => ?_⟩
    · rw [hfl]
      exact (h.settings k).flags
    · rw [hfl, hen]
      exact (h.settings k).unset (hreg.symm.trans hno)
  · obtain ⟨m, hm, hintr⟩ := ho.of_same hsame (hent _)
    exact ⟨m, hm, hintr, hent _⟩
  · rw [hpend]
    exact id

omit h in
theorem settings_setEntry_eq (h : se.settings = (s.entries k).settings)
    (k' : Option (Fin n) × Nat) : ((s.setEntry k se).entries k').settings = (s.entries k').settings := by
  rw [entries_setEntry]
  split_ifs with hk
  · rw [hk, h]
  · rfl

theorem RoutingOk.dispatched {origin : Origin}
    (hd : Dispatched p pe r m origin s s') : RoutingOk p s' := by
  obtain ⟨-, hst, -, ctx, ns, rfl⟩ := hd
  refine h.keep_settings rfl (settings_setEntry_eq ?_) (cpus_setCpu _ rfl)
    (SameAt.refl _)
  rw [SdeiEntry.settings, SdeiEntry.settings, hst]

/-- **A change of what is forwarded**, and of what waits to be. -/
theorem RoutingOk.forward (hmaps : s'.maps = s.maps)
    (hent : s'.entries = s.entries) (htype : s'.gic.intrType = s.gic.intrType)
    (hrt : s'.gic.routing = s.gic.routing)
    (hfwd : ∀ r m o, Owns s r m o → (s.entries (o, r.idx)).state.enabled = true →
      s'.gic.enabled o m.intr = true ∨ awaitsUnmask p s' (o, r.idx)) : RoutingOk p s' := by
  have hmap := map?_congr hmaps
  have hown : ∀ r m o, Owns s' r m o → Owns s r m o := by
    intro r m o ho
    rw [Owns, hmap, registrations_congr (s := s) (fun k => by rw [hent])] at ho
    exact ho
  refine ⟨?_, ?_, fun r m o ho => ⟨?_, fun hnone => ?_, fun hon => ?_⟩,
    fun r r' m m' o ho ho' => h.unique r r' m m' o (hown r m o ho) (hown r' m' o ho')⟩
  · rw [hmap]
    exact h.maps
  · rw [hent]
    exact h.settings
  · rw [htype]
    exact (h.owner r m o (hown r m o ho)).el3
  · rw [hent, hrt]
    exact (h.owner r m o (hown r m o ho)).routed hnone
  · rw [hent] at hon
    exact hfwd r m o (hown r m o ho) hon

/-- **A trigger while the PE is masked** disables an interrupt that targets the PE. -/
theorem RoutingOk.maskedTrigger (hfind : s.findEventMapByIntr intr (platIcIsSpi intr) = some (r, m))
    (hdel : delivers p s pe intr = true) (hmsk : MaskedTrigger pe r m s s') :
    RoutingOk p s' := by
  obtain ⟨hmap, htgt, rfl⟩ := hmsk
  obtain ⟨hsh, -, rfl⟩ := findEventMapByIntr_eq_some hfind
  have hpend : ((s.setCpu pe { s.cpus pe with pendingEnables := true }).cpus pe).pendingEnables :=
    by simp [setCpu]
  refine h.forward rfl rfl rfl rfl fun q mq o ho hon => ?_
  by_cases hhit : o = bank pe m.intr ∧ mq.intr = m.intr
  · right
    obtain ⟨hbank, hintr⟩ := hhit
    cases hspi : platIcIsSpi m.intr with
    | false =>
      -- A private interrupt, of this PE.
      rw [bank, hspi] at hbank
      subst hbank
      exact hpend
    | true =>
      rw [bank, hspi] at hbank
      obtain rfl : o = none := hbank
      obtain ⟨hpriv, -, hfree⟩ := h.maps r m hmap
      rw [hspi] at hsh
      have hpri : isEventPrivate m = false := by rw [hpriv, hsh]; rfl
      have hkey : entryKey pe r m = (none, r.idx) := by
        rw [entryKey_eq_keyOf hpriv, keyOf, if_pos hsh]
      have hrm : (s.entries (none, r.idx)).regFlags = sdeiRegfRmPe := by
        rw [hpri, hkey] at htgt
        exact htgt.resolve_left (by decide)
      -- The mapping that has the interrupt owns it.
      have hown : Owns s r m none := by
        refine ⟨hmap, ?_, mem_registrations.mpr ⟨mem_owners.mpr hsh.symm, ?_⟩⟩
        · rw [← Bool.not_eq_false]
          intro hunb
          have hsgi := of_decide_eq_true (hfree hunb)
          exact absurd (of_decide_eq_true hspi).1 (not_le.mpr (lt_trans hsgi (by decide)))
        · rw [← Bool.not_eq_false]
          intro hunr
          have hzero := ((h.settings _).unset hunr).2
          rw [hrm] at hzero
          cases hzero
      obtain rfl := h.unique q r mq m none ho hown hintr
      refine ⟨hrm, fun pe' hpe' => ?_⟩
      have hrt := (h.owner q m none hown).routed rfl
      rw [routingOf, hrm, if_neg (by decide)] at hrt
      have hrea : (s.gic.routing m.intr).reaches p pe = true := by
        have hboth := (Bool.and_eq_true_iff.mp hdel).2
        rwa [hspi] at hboth
      rw [hrt] at hrea
      have hself : (s.entries (none, q.idx)).affinity = p.mpidr pe := of_decide_eq_true hrea
      obtain rfl := p.mpidr_injective (hpe'.trans hself)
      exact hpend
  · refine ((h.owner q mq o ho).forwarded hon).imp (fun hfwd => ?_) fun haw => ?_
    · exact (if_neg hhit).trans hfwd
    · refine haw.mono rfl fun q' hq' => ?_
      obtain rfl | hqp := eq_or_ne q' pe
      · exact hpend
      · simpa [setCpu, hqp] using hq'

end

/-- The event targets the PE: it is a private event of the PE, or routed to it. -/
def Targets (p : Platform n) (s : Dispatcher n) (pe : Fin n) (k : Option (Fin n) × Nat) : Prop :=
  k.1 = some pe ∨ (k.1 = none ∧ (s.entries k).regFlags = sdeiRegfRmPe ∧
    (s.entries k).affinity = p.mpidr pe)

theorem sdeiPeUnmask_mono (h : s.gic.enabled o intr = true) :
    (sdeiPeUnmask p s pe).gic.enabled o intr = true := by
  unfold sdeiPeUnmask
  dsimp only
  split_ifs
  · rw [enableShared_eq, enablePrivate_eq]
    exact enableAll_mono (enableAll_mono h)
  · exact h

/-- **Unmasking** enables the interrupts of the events that are enabled and target the
PE. -/
theorem RoutingOk.unmask_enabled (h : RoutingOk p s) (ho : Owns s r m o)
    (hon : (s.entries (o, r.idx)).state.enabled = true) (htgt : Targets p s pe (o, r.idx)) :
    (sdeiPeUnmask p s pe).gic.enabled o m.intr = true := by
  obtain ⟨hmap, hbd, hreg⟩ := ho
  obtain ⟨hpriv, hkind, -⟩ := h.maps r m hmap
  have hown := mem_owners.mp (mem_registrations.mp hreg).1
  have hkey : (o, r.idx) = keyOf pe r → entryKey pe r m = (o, r.idx) :=
    fun heq => (entryKey_eq_keyOf hpriv pe).trans heq.symm
  by_cases hpend : (s.cpus pe).pendingEnables = true
  · unfold sdeiPeUnmask
    dsimp only
    rw [if_pos hpend, enableShared_eq, enablePrivate_eq]
    obtain ⟨shared, i⟩ := r
    rcases htgt with hself | ⟨hnone, hrm, haff⟩
    · obtain rfl : o = some pe := hself
      obtain rfl : shared = false := hown.symm
      have hbank : bank pe m.intr = some pe := by
        rw [bank, hkind hbd]
        rfl
      refine enableAll_mono ?_
      rw [← hbank]
      refine enableAll_hit hmap (decide_eq_true ⟨hbd, ?_⟩)
      rw [zero_add, hkey rfl]
      exact hon
    · obtain rfl : o = none := hnone
      obtain rfl : shared = true := hown.symm
      have hbank : bank pe m.intr = none := by
        rw [bank, hkind hbd]
        rfl
      rw [← hbank]
      refine enableAll_hit hmap (decide_eq_true ?_)
      rw [zero_add, hkey rfl]
      exact ⟨hbd, hon, hrm, haff⟩
  · -- Nothing was put off on the PE, so the interrupt is enabled.
    refine sdeiPeUnmask_mono ?_
    refine ((h.owner r m o ⟨hmap, hbd, hreg⟩).forwarded hon).resolve_right fun haw => ?_
    rcases htgt with hself | ⟨hnone, -, haff⟩
    · obtain rfl : o = some pe := hself
      exact hpend haw
    · obtain rfl : o = none := hnone
      exact hpend (haw.2 pe haff.symm)

theorem RoutingOk.unmask (h : RoutingOk p s) : RoutingOk p (sdeiPeUnmask p s pe) := by
  obtain ⟨enabled, hgic⟩ := sdeiPeUnmask_gic p s pe
  have hoth : ∀ q, q ≠ pe →
      ((sdeiPeUnmask p s pe).cpus q).pendingEnables = (s.cpus q).pendingEnables := by
    intro q hq
    simp [sdeiPeUnmask, setCpu, hq]
  refine h.forward rfl rfl (by rw [hgic]) (by rw [hgic]) fun r m o ho hon => ?_
  by_cases htgt : Targets p s pe (o, r.idx)
  · exact Or.inl (h.unmask_enabled ho hon htgt)
  · refine ((h.owner r m o ho).forwarded hon).imp sdeiPeUnmask_mono fun haw => ?_
    cases o with
    | none =>
      obtain ⟨hrm, hall⟩ := haw
      refine ⟨hrm, fun q hq => ?_⟩
      rw [hoth q fun hqp => htgt (Or.inr ⟨rfl, hrm, by rw [← hqp]; exact hq.symm⟩)]
      exact hall q hq
    | some q =>
      have hq : q ≠ pe := fun hqp => htgt (.inl (by rw [hqp]))
      exact (hoth q hq).trans haw

/-- **A mapping is bound or released**, without a registration of it or without an
interrupt afterwards. -/
theorem RoutingOk.remap (h : RoutingOk p s) (hmap : s.map? r = some m) (m' : EvMap)
    (hmaps : s'.maps = (s.setMap r m').maps) (hent : s'.entries = s.entries)
    (hok : MapOk r m') (hnone : isMapBound m' = true → s.registrations r = ∅)
    (hpend : ∀ pe, (s'.cpus pe).pendingEnables = (s.cpus pe).pendingEnables)
    (hgic : s'.gic = s.gic) : RoutingOk p s' := by
  refine h.keep (fun q mq hq => ?_) ?_ (fun q mq o ho => ?_) (fun pe => ?_) fun o i => ?_
  · rcases map?_of_setMap hmap hmaps hq with ⟨rfl, rfl⟩ | ⟨-, hq⟩
    · exact hok
    · exact h.maps q mq hq
  · rw [hent]
    exact h.settings
  · obtain ⟨hq, hbd, hreg⟩ := ho
    rw [registrations_congr (s := s) fun k => by rw [hent]] at hreg
    rcases map?_of_setMap hmap hmaps hq with ⟨rfl, rfl⟩ | ⟨-, hq⟩
    · rw [hnone hbd] at hreg
      exact absurd hreg (Finset.notMem_empty o)
    · exact ⟨mq, ⟨hq, hbd, hreg⟩, rfl, by rw [hent]⟩
  · rw [hpend]
    exact id
  · rw [hgic]
    exact SameAt.refl ..

/-- A PE that comes back has no private events, and its masked triggers are not
forgotten. -/
theorem RoutingOk.cpuOn (h : RoutingOk p s) : RoutingOk p (Sdei.cpuOn s pe) := by
  have hen : ∀ k, (Sdei.cpuOn s pe).entries k = zero ∨
      (Sdei.cpuOn s pe).entries k = s.entries k := by
    intro k
    by_cases hk : k.1 = some pe ∧ k.2 < (s.maps false).length
    · exact .inl (if_pos hk)
    · exact .inr (if_neg hk)
  refine h.keep h.maps (fun k => ?_) (fun r m o ho => ?_) (fun q => ?_) (SameAt.refl _)
  · rcases hen k with hk | hk
    · rw [hk]
      exact ⟨.inl rfl, fun _ => ⟨rfl, rfl⟩⟩
    · rw [hk]
      exact h.settings k
  · obtain ⟨hmap, hbd, hreg⟩ := ho
    obtain ⟨hown, hreg⟩ := mem_registrations.mp hreg
    rcases hen (o, r.idx) with hk | hk
    · rw [hk] at hreg
      cases hreg
    · rw [hk] at hreg ⊢
      exact ⟨m, ⟨hmap, hbd, mem_registrations.mpr ⟨hown, hreg⟩⟩, rfl, rfl⟩
  · obtain rfl | hq := eq_or_ne q pe
    · simp [Sdei.cpuOn, sdeiCpuOnInit, sdeiPeMask, setCpu]
    · simp [Sdei.cpuOn, sdeiCpuOnInit, sdeiPeMask, setCpu, hq]

/-! ### Runs -/

/-- The routing of an event to one PE names the affinity that was given when the event was
registered, and no mapping is bound while its event is registered. -/
def routesAsRecorded (s : Dispatcher n) : Event n → Bool
  | .routingSet pe evNum flags mpidr =>
    flags = sdeiRegfRmPe → (s.findEventMap evNum).all fun found =>
      mpidr &&& mpidrAffinityMask = (s.entries (entryKey pe found.1 found.2)).affinity
  | .bindStep pe =>
    match (s.cpus pe).binding with
    | .claim intr i => s.registrations ⟨platIcIsSpi intr, i⟩ = ∅
    | _ => true
  | _ => true

variable {event : Event n}

theorem RoutingOk.move (h : RoutingOk p s) (hok : routesAsRecorded s event = true)
    (hmove : Move p s event s') : RoutingOk p s' := by
  cases hmove with
  | refuse => exact h
  | register hmap _ _ hns hfl => exact h.register hmap hns hfl rfl rfl rfl rfl
  | unregister hmap _ hreg => exact h.unregister hmap hreg rfl rfl ⟨rfl, rfl⟩ rfl rfl
  | enable hmap hreg => exact h.setEvent true hmap hreg
  | disable hmap hreg => exact h.setEvent false hmap hreg
  | routingSet hmap hsh hbd hfind hfl hst =>
    refine h.routingSet hmap hsh hbd hfl hst fun hrm => ?_
    have hall := of_decide_eq_true hok hrm
    rw [hfind] at hall
    exact of_decide_eq_true hall
  | @claim pe intr i m hpc hmap =>
    rw [routesAsRecorded, hpc] at hok
    exact h.remap hmap _ rfl rfl ⟨(h.maps _ m hmap).priv, fun _ => rfl, fun hno => (nomatch hno)⟩
      (fun _ => of_decide_eq_true hok) (cpus_setCpu _ rfl) rfl
  | release hmap =>
    exact h.remap hmap _ rfl rfl ⟨(h.maps _ _ hmap).priv, fun hyes => (nomatch hyes), fun _ => rfl⟩
      (fun hyes => (nomatch hyes)) (fun _ => rfl) rfl
  | complete =>
    exact h.keep_settings rfl (settings_setEntry_eq rfl) (cpus_setCpu _ rfl)
      (SameAt.refl _)
  | masked hfind hdel hmsk => exact h.maskedTrigger hfind hdel hmsk
  | interrupt _ _ _ hd | dispatch _ hd => exact h.dispatched hd
  | unmask => exact h.unmask
  | bind | bindTo | mask | cpuOff | wakeup =>
    exact h.keep_settings rfl (fun _ => rfl) (cpus_setCpu _ rfl) (SameAt.refl _)
  | cpuOn => exact h.cpuOn

theorem RoutingOk.step (h : RoutingOk p s) (hok : routesAsRecorded s event = true)
    (hstep : s.step p event = some s') : RoutingOk p s' := by
  refine step_moves hstep (h.move hok) h (fun event' t t' hpart ht => ht.move ?_) id
  cases hpart <;> rfl

theorem Dispatcher.Started.routingOk (h : s.Started)
    (hdyn : ∀ i m, s.map? ⟨true, i⟩ = some m → isMapDynamic m = true → isMapBound m = false) :
    RoutingOk p s := by
  have hnone : ∀ r m o, ¬ Owns s r m o := by
    intro r m o ho
    have hreg := (mem_registrations.mp ho.2.2).2
    rw [h.entries] at hreg
    cases hreg
  refine ⟨fun r m hmap => ?_, fun k => ?_, fun r m o ho => absurd ho (hnone r m o),
    fun r r' m m' o ho => absurd ho (hnone r m o)⟩
  · have hstt := h.maps r m hmap
    refine ⟨hstt.priv, fun hbd => ?_, hstt.free⟩
    by_cases hd : isMapDynamic m = true
    · obtain ⟨shared, i⟩ := r
      cases shared with
      | false =>
        rw [hstt.dyn hd]
        rfl
      | true => cases hbd.symm.trans (hdyn i m hmap hd)
    · exact hstt.intr hbd (Bool.eq_false_iff.mpr hd)
  · rw [h.entries]
    exact ⟨.inl rfl, fun _ => ⟨rfl, rfl⟩⟩

/-- **No enable is lost** in a run in which the routing of events is set only to the
affinity that was given at registration: the affinity of a registered shared event that
is routed to one PE is the one that is programmed, and after a PE is unmasked, each event
that is bound, enabled and targets the PE has its interrupt enabled. -/
theorem no_enable_lost {table : Bool → List EvMap} {g : Gic n} {events : List (Event n)}
    (hinit : sdeiInit p table g = some s)
    (hdyn : ∀ i m, s.map? ⟨true, i⟩ = some m → isMapDynamic m = true → isMapBound m = false)
    (hrun : run (step p) s events = some s')
    (hok : Along (step p) (fun s event => routesAsRecorded s event = true) s events) :
    (∀ i m, s'.map? ⟨true, i⟩ = some m → isMapBound m = true →
      (s'.entries (none, i)).state.registered = true →
      (s'.entries (none, i)).regFlags = sdeiRegfRmPe →
      s'.gic.routing m.intr = .pe (s'.entries (none, i)).affinity) ∧
    ∀ pe r m, s'.map? r = some m → isMapBound m = true →
      (s'.entries (entryKey pe r m)).state.enabled = true →
      (isEventPrivate m = true ∨ s'.gic.routing m.intr = .pe (p.mpidr pe)) →
      (sdeiPeUnmask p s' pe).gic.enabled (bank pe m.intr) m.intr = true := by
  have h : RoutingOk p s' := run_invariant_along (fun _ _ _ => RoutingOk.step)
    ((sdeiInit_started hinit).routingOk hdyn) hok hrun
  refine ⟨fun i m hmap hbd hreg hrm => ?_, fun pe r m hmap hbd hon htgt => ?_⟩
  · have hown : Owns s' ⟨true, i⟩ m none :=
      ⟨hmap, hbd, mem_registrations.mpr ⟨mem_owners.mpr rfl, hreg⟩⟩
    have hrtd := (h.owner _ m none hown).routed rfl
    rwa [routingOf, hrm, if_neg (by decide)] at hrtd
  · obtain ⟨hpriv, hkind, -⟩ := h.maps r m hmap
    rw [entryKey_eq_keyOf hpriv] at hon
    have hreg : (s'.entries (keyOf pe r)).state.registered = true := by
      rw [← Bool.not_eq_false]
      intro hno
      exact absurd (hon.symm.trans ((h.settings _).unset hno).1) (by decide)
    have hown : Owns s' r m (keyOf pe r).1 :=
      ⟨hmap, hbd, mem_registrations.mpr ⟨keyOf_mem_owners pe r, hreg⟩⟩
    rw [bank_eq (hkind hbd)]
    refine h.unmask_enabled hown hon ?_
    cases hsh : r.shared with
    | false => exact .inl (if_neg (by rw [hsh]; decide))
    | true =>
      have hnone : (keyOf pe r).1 = none := if_pos hsh
      have hrt := htgt.resolve_left (by rw [hpriv, hsh]; decide)
      rw [(h.owner r m _ hown).routed hnone, routingOf] at hrt
      rcases (h.settings ((keyOf pe r).1, r.idx)).flags with hany | hrm
      · rw [if_pos hany] at hrt
        cases hrt
      · rw [if_neg (by rw [hrm]; decide)] at hrt
        exact .inr ⟨hnone, hrm, Routing.pe.inj hrt⟩

/-- A shared event is registered with an affinity, routed to PE 1 and enabled, and triggers
on PE 1, which is masked. -/
def triggerMasked (mpidr : U64) : List (Event 2) :=
  [.cpuOn 1, .register 0 804 0x1000 0 1 mpidr true false, .routingSet 0 804 1 1, .enable 0 804,
    .interrupt 1 40 sampleContext]

theorem sampleStart_dynamic (assertions : Bool) (i : Nat) (m : EvMap)
    (hmap : (sampleStart assertions).map? ⟨true, i⟩ = some m) (hdyn : isMapDynamic m = true) :
    isMapBound m = false := by
  have hall : ∀ m ∈ (sampleStart assertions).maps true,
      isMapDynamic m = true → isMapBound m = false := by
    cases assertions <;> decide +kernel
  exact hall m (List.mem_of_getElem? hmap) hdyn

theorem no_enable_lost_masked :
    ∃ s', run (step (samplePlatform true)) (sampleStart true) (triggerMasked 1) =
        some s' ∧ s'.gic.enabled none 40 = false ∧
      (sdeiPeUnmask (samplePlatform true) s' 1).gic.enabled none 40 = true := by
  have hok : Along (step (samplePlatform true))
      (fun s event => routesAsRecorded s event = true) (sampleStart true) (triggerMasked 1) := by
    decide +kernel
  refine exists_some_imp (q := fun s' => s'.gic.enabled none 40 = false ∧
    s'.map? ⟨true, 0⟩ = some ⟨804, 40, ⟨false, true, false, false, false, false⟩, 1⟩ ∧
    (s'.entries (none, 0)).state.enabled = true ∧ s'.gic.routing 40 = .pe 1) (by decide +kernel)
    fun s' hrun ⟨hoff, hmap, hon, hrt⟩ => ⟨hoff, ?_⟩
  exact (no_enable_lost (sampleStart_init true) (sampleStart_dynamic true) hrun hok).2 1 ⟨true, 0⟩ _
    hmap rfl hon (.inr hrt)

/-- **The affinity is not updated** by a routing to another PE than the one given at
registration; without assertions, an event that triggers on the new PE while it is masked
stays disabled when the PE is unmasked. -/
theorem affinity_not_updated :
    ∃ s', run (step (samplePlatform false)) (sampleStart false) (triggerMasked 0) =
        some s' ∧
      (s'.entries (none, 0)).state.enabled = true ∧
      (s'.entries (none, 0)).regFlags = sdeiRegfRmPe ∧
      (s'.entries (none, 0)).affinity = 0 ∧ s'.gic.routing 40 = .pe 1 ∧
      (samplePlatform false).mpidr 1 = 1 ∧
      (sdeiPeUnmask (samplePlatform false) s' 1).gic.enabled none 40 = false := by
  decide +kernel

end TrustedFirmware.Sdei
