import TrustedFirmware.Sdei.Registration

/-!
# Binding interrupts to events

`SDEI_INTERRUPT_BIND` looks for a mapping that has the interrupt and then for one that
is free, and takes a lock only to claim the latter. Two PEs that bind the same interrupt
can each pass the first search before the other one claims a mapping (`bound_twice`). If
a PE starts to bind an interrupt only while no other PE is binding it, and no event is
released while its interrupt is being bound, then in every run an interrupt is bound to
at most one mapping of its kind, and calls for it that succeed return the same event
until it is released (`bindings_unique`).
-/

namespace TrustedFirmware.Sdei

open Lib Dispatcher Option

variable {n : Nat} {p : Platform n} {s s' : Dispatcher n} {pe : Fin n} {r : MapRef} {m m' : EvMap}
  {intr : Nat} {evNum : Int}

/-! ### The invariant -/

/-- The mapping is bound to the interrupt. -/
def BoundTo (s : Dispatcher n) (r : MapRef) (intr : Nat) : Prop :=
  ∃ m, s.map? r = some m ∧ isMapBound m = true ∧ m.intr = intr

instance (s : Dispatcher n) (r : MapRef) (intr : Nat) : Decidable (BoundTo s r intr) :=
  decidable_of_iff ((s.map? r).any fun m => isMapBound m ∧ m.intr = intr)
    (by simp [BoundTo, any_eq_true])

/-- No two mappings of the same kind are bound to the same interrupt. -/
def UniqueBindings (s : Dispatcher n) : Prop :=
  ∀ shared i j intr, BoundTo s ⟨shared, i⟩ intr → BoundTo s ⟨shared, j⟩ intr → i = j

/-- The interrupt that is being bound. -/
def BindPc.intr? : BindPc → Option Nat
  | .idle => none
  | .lookup intr _ | .found intr _ | .free intr _ | .claim intr _ => some intr

/-- What the searches have established. -/
def BindPc.Ok (s : Dispatcher n) : BindPc → Prop
  | .idle => True
  | .lookup intr i => ∀ j, j < i → ¬ BoundTo s ⟨platIcIsSpi intr, j⟩ intr
  | .found intr i => BoundTo s ⟨platIcIsSpi intr, i⟩ intr
  | .free intr _ | .claim intr _ => ∀ j, ¬ BoundTo s ⟨platIcIsSpi intr, j⟩ intr

/-- Bindings are unique, each PE that is binding an interrupt is the only one, and no
mapping has an interrupt without being bound to it. -/
structure BindingsOk (s : Dispatcher n) : Prop where
  unique : UniqueBindings s
  free : ∀ r m, s.map? r = some m → isMapBound m = false → platIcIsSgi m.intr = true
  sgi : ∀ pe intr, (s.cpus pe).binding.intr? = some intr → platIcIsSgi intr = false
  alone : ∀ pe pe' intr, (s.cpus pe).binding.intr? = some intr →
    (s.cpus pe').binding.intr? = some intr → pe = pe'
  search : ∀ pe, (s.cpus pe).binding.Ok s

/-- What binding reads of a mapping. -/
def EvMap.bindPart (m : EvMap) : Int × Nat × Bool := (m.evNum, m.intr, m.flags.bound)

/-- Calls that bind and release nothing. -/
structure SameBindings (s s' : Dispatcher n) : Prop where
  maps : ∀ r, (s'.map? r).map EvMap.bindPart = (s.map? r).map EvMap.bindPart
  binding : ∀ pe, (s'.cpus pe).binding = (s.cpus pe).binding

theorem SameBindings.map? (h : SameBindings s s') (hmap : s.map? r = some m) :
    ∃ m', s'.map? r = some m' ∧ m'.evNum = m.evNum ∧ m'.intr = m.intr ∧
      isMapBound m' = isMapBound m := by
  have hr := h.maps r
  rw [hmap, map_some, map_eq_some_iff] at hr
  obtain ⟨m', hm', heq⟩ := hr
  simp only [EvMap.bindPart, Prod.mk.injEq] at heq
  exact ⟨m', hm', heq⟩

theorem SameBindings.symm (h : SameBindings s s') : SameBindings s' s :=
  ⟨fun r => (h.maps r).symm, fun pe => (h.binding pe).symm⟩

theorem SameBindings.boundTo (h : SameBindings s s') : BoundTo s' r intr ↔ BoundTo s r intr := by
  have himp : ∀ {s s' : Dispatcher n}, SameBindings s s' → BoundTo s r intr →
      BoundTo s' r intr := by
    intro s s' h hb
    obtain ⟨m, hmap, hbd, hintr⟩ := hb
    obtain ⟨m', hmap', -, hintr', hbound'⟩ := h.map? hmap
    exact ⟨m', hmap', hbound'.trans hbd, hintr'.trans hintr⟩
  exact ⟨himp h.symm, himp h⟩

variable {pc : BindPc} {out : Option Int} {event : Event n}

/-- A search depends on the bindings of its interrupt alone. -/
theorem BindPc.Ok.congr
    (hbd : ∀ intr, pc.intr? = some intr → ∀ r, BoundTo s' r intr ↔ BoundTo s r intr)
    (h : pc.Ok s) : pc.Ok s' := by
  cases pc with
  | idle => trivial
  | lookup intr => exact fun j hj => (hbd intr rfl _).not.mpr (h j hj)
  | found intr => exact (hbd intr rfl _).mpr h
  | free intr i | claim intr i => exact fun j => (hbd intr rfl _).not.mpr (h j)

theorem BindingsOk.same (h : BindingsOk s) (hs : SameBindings s s') : BindingsOk s' := by
  refine ⟨fun shared i j intr hi hj => ?_, fun r m' hmap' hfree => ?_, fun pe => ?_,
    fun pe pe' => ?_, fun pe => ?_⟩
  · exact h.unique shared i j intr (hs.boundTo.mp hi) (hs.boundTo.mp hj)
  · obtain ⟨m, hmap, -, hintr, hbd⟩ := hs.symm.map? hmap'
    rw [← hintr]
    exact h.free r m hmap (hbd.trans hfree)
  · rw [hs.binding]
    exact h.sgi pe
  · rw [hs.binding, hs.binding]
    exact h.alone pe pe'
  · rw [hs.binding]
    exact (h.search pe).congr fun _ _ _ => hs.boundTo

/-! ### What steps preserve -/

/-- A PE gets to a place in BIND for an interrupt that no other PE is binding. -/
theorem BindingsOk.place (h : BindingsOk s)
    (hsgi : ∀ intr, pc.intr? = some intr → platIcIsSgi intr = false)
    (halo : ∀ q ≠ pe, ∀ intr, pc.intr? = some intr → (s.cpus q).binding.intr? ≠ some intr)
    (hpc : pc.Ok s) : BindingsOk (Sdei.bindTo s pe pc) := by
  have hall (P : Fin n → BindPc → Prop) (hpe : P pe pc) (hoth : ∀ q ≠ pe, P q (s.cpus q).binding) :
      ∀ q, P q ((Sdei.bindTo s pe pc).cpus q).binding :=
    (Function.forall_update_iff s.cpus fun q c => P q c.binding).mpr ⟨hpe, hoth⟩
  refine ⟨h.unique, h.free, ?_, ?_, ?_⟩
  · exact hall (fun _ b => ∀ k, b.intr? = some k → platIcIsSgi k = false) hsgi fun q _ => h.sgi q
  · refine hall (fun q b => ∀ q' k, b.intr? = some k →
      ((Sdei.bindTo s pe pc).cpus q').binding.intr? = some k → q = q') (fun q' k hk => ?_)
      fun q hq q' k hk => ?_
    · exact hall (fun q' b => b.intr? = some k → pe = q') (fun _ => rfl)
        (fun q' hq' hk' => absurd hk' (halo q' hq' k hk)) q'
    · exact hall (fun q' b => b.intr? = some k → q = q') (fun hk' => absurd hk (halo q hq k hk'))
        (fun q' _ => h.alone q q' k hk) q'
  · exact hall (fun _ b => b.Ok _) (hpc.congr fun _ _ _ => Iff.rfl)
      fun q _ => (h.search q).congr fun _ _ _ => Iff.rfl

/-- The PE goes on with its search, or leaves. -/
theorem BindingsOk.bindTo (h : BindingsOk s)
    (hintr : ∀ intr, pc.intr? = some intr → (s.cpus pe).binding.intr? = some intr) (hpc : pc.Ok s) :
    BindingsOk (Sdei.bindTo s pe pc) :=
  h.place (fun k hk => h.sgi pe k (hintr k hk))
    (fun q hq k hk hk' => hq (h.alone q pe k hk' (hintr k hk))) hpc

theorem boundTo_setMap (hmap : s.map? r = some m) {q : MapRef} {i : Nat} :
    BoundTo (s.setMap r m') q i ↔
      (q = r ∧ isMapBound m' = true ∧ m'.intr = i) ∨ (q ≠ r ∧ BoundTo s q i) := by
  unfold BoundTo
  rw [map?_setMap hmap]
  by_cases hq : q = r
  · simp [hq]
  · simp [hq]

/-- **A claim** of a mapping, when no mapping is bound to the interrupt. -/
theorem BindingsOk.claim (h : BindingsOk s) {i : Nat} (hpc : (s.cpus pe).binding = .claim intr i)
    (hmap : s.map? ⟨platIcIsSpi intr, i⟩ = some m) (hfree : isMapBound m = false) :
    BindingsOk ((Sdei.bindTo s pe .idle).setMap ⟨platIcIsSpi intr, i⟩
      (setMapBound { m with intr := intr } true)) := by
  have hnone : ∀ j, ¬ BoundTo s ⟨platIcIsSpi intr, j⟩ intr := by
    have hsrc := h.search pe
    rw [hpc] at hsrc
    exact hsrc
  have hidle : BindingsOk (Sdei.bindTo s pe .idle) := h.bindTo (fun _ hi => (nomatch hi)) trivial
  -- The other PEs bind other interrupts.
  have hoths : ∀ q, ((Sdei.bindTo s pe .idle).cpus q).binding.intr? ≠ some intr := by
    refine (Function.forall_update_iff s.cpus fun _ c => c.binding.intr? ≠ some intr).mpr
      ⟨by simp [BindPc.intr?], fun q hq hq' => ?_⟩
    exact hq (h.alone q pe intr hq' (by rw [hpc]; rfl))
  have hmap' : (Sdei.bindTo s pe .idle).map? ⟨platIcIsSpi intr, i⟩ = some m := hmap
  have hunb : ∀ k, ¬ BoundTo s ⟨platIcIsSpi intr, i⟩ k := by
    intro k hb
    obtain ⟨m', hm', hbd, -⟩ := hb
    rw [hmap] at hm'
    cases hm'
    cases hbd.symm.trans hfree
  have hbd : ∀ q k, BoundTo ((Sdei.bindTo s pe .idle).setMap ⟨platIcIsSpi intr, i⟩
      (setMapBound { m with intr := intr } true)) q k ↔
        (q = ⟨platIcIsSpi intr, i⟩ ∧ k = intr) ∨ BoundTo s q k := by
    intro q k
    rw [boundTo_setMap hmap']
    constructor
    · intro hb
      rcases hb with ⟨hq, -, hk⟩ | ⟨-, hb⟩
      · exact .inl ⟨hq, hk.symm⟩
      · exact .inr hb
    · intro hb
      rcases hb with ⟨hq, hk⟩ | hb
      · exact .inl ⟨hq, rfl, hk.symm⟩
      · refine .inr ⟨fun hq => ?_, hb⟩
        rw [hq] at hb
        exact hunb k hb
  refine ⟨fun shared j j' k hj hj' => ?_, fun q mq hq hfre => ?_, hidle.sgi, hidle.alone,
    fun q => ?_⟩
  · rcases (hbd ..).mp hj with ⟨heq, hk⟩ | hj
    · rcases (hbd ..).mp hj' with ⟨heq', -⟩ | hj'
      · exact congrArg MapRef.idx (heq.trans heq'.symm)
      · obtain ⟨rfl, -⟩ := MapRef.mk.inj heq
        exact absurd (hk ▸ hj') (hnone j')
    · rcases (hbd ..).mp hj' with ⟨heq', hk⟩ | hj'
      · obtain ⟨rfl, -⟩ := MapRef.mk.inj heq'
        exact absurd (hk ▸ hj) (hnone j)
      · exact h.unique shared j j' k hj hj'
  · rcases map?_of_setMap hmap' rfl hq with ⟨-, rfl⟩ | ⟨-, hq⟩
    · cases hfre
    · exact h.free q mq hq hfre
  · refine (hidle.search q).congr fun k hk r => (hbd r k).trans (or_iff_right fun hr => ?_)
    exact hoths q (hr.2 ▸ hk)

/-- **A release** of a mapping whose interrupt no PE is binding. -/
theorem BindingsOk.unbind (h : BindingsOk s) (hmap : s.map? r = some m)
    (hfree : ∀ q, (s.cpus q).binding.intr? ≠ some m.intr) :
    BindingsOk (s.setMap r (setMapBound { m with intr := sdeiDynIrq } false)) := by
  have hbd : ∀ q k, BoundTo (s.setMap r (setMapBound { m with intr := sdeiDynIrq } false)) q k ↔
      q ≠ r ∧ BoundTo s q k := by
    intro q k
    rw [boundTo_setMap hmap]
    exact or_iff_right fun hb => (nomatch hb.2.1)
  refine ⟨fun shared i j k hi hj => ?_, fun q mq hq hfre => ?_, h.sgi, h.alone, fun q => ?_⟩
  · exact h.unique shared i j k ((hbd ..).mp hi).2 ((hbd ..).mp hj).2
  · rcases map?_of_setMap hmap rfl hq with ⟨-, rfl⟩ | ⟨-, hq⟩
    · rfl
    · exact h.free q mq hq hfre
  · refine (h.search q).congr fun k hk q' => (hbd q' k).trans (and_iff_right_of_imp ?_)
    intro hb hqr
    obtain ⟨m', hm', -, hintr⟩ := hb
    rw [hqr, hmap] at hm'
    cases hm'
    exact hfree q (hintr ▸ hk)

/-- The event that is bound to an interrupt. -/
def Granted (s : Dispatcher n) (intr : Nat) (evNum : Int) : Prop :=
  ∃ i m, s.map? ⟨platIcIsSpi intr, i⟩ = some m ∧ isMapBound m = true ∧ m.intr = intr ∧
    m.evNum = evNum

/-- A call for the interrupt that succeeds returns the event that it is bound to. -/
def Answers (s' : Dispatcher n) (intr : Nat) (out : Option Int) : Prop :=
  ∀ evNum, out = some evNum → 0 ≤ evNum → Granted s' intr evNum

theorem BindingsOk.goOn (h : BindingsOk s) (heq : some (Sdei.bindTo s pe pc, none) = some (s', out))
    (hpc : pc.Ok s) (hintr : pc.intr? = (s.cpus pe).binding.intr?) :
    BindingsOk s' ∧ Answers s' intr out := by
  cases heq
  exact ⟨h.bindTo (fun k hk => hintr ▸ hk) hpc, fun _ hout => (nomatch hout)⟩

theorem BindingsOk.fail (h : BindingsOk s) {code : Int}
    (heq : some (Sdei.bindTo s pe .idle, some code) = some (s', out)) (hcode : code < 0) :
    BindingsOk s' ∧ Answers s' intr out := by
  cases heq
  refine ⟨h.bindTo (fun _ hi => (nomatch hi)) trivial, fun _ hout hnn => ?_⟩
  cases hout
  exact absurd hnn (Int.not_le.mpr hcode)

/-- **A step of a PE that is binding an interrupt.** -/
theorem BindingsOk.bindStep (h : BindingsOk s) (hc : sdeiInterruptBindStep p s pe = some (s', out))
    (hintr : (s.cpus pe).binding.intr? = some intr) : BindingsOk s' ∧ Answers s' intr out := by
  have hsrc := h.search pe
  have hsgi := h.sgi pe intr hintr
  unfold sdeiInterruptBindStep at hc
  generalize hpc : (s.cpus pe).binding = v at hc hintr hsrc
  cases v with
  | idle =>
    cases hc
  | lookup k i =>
    obtain rfl := some.inj hintr
    dsimp only at hc
    cases hmap : s.map? ⟨platIcIsSpi k, i⟩ with
    | none =>
      rw [hmap] at hc
      refine h.goOn hc (fun j hb => ?_) (by rw [hpc]; rfl)
      -- Past the end of the array there is no mapping.
      by_cases hj : j < i
      · exact hsrc j hj hb
      · obtain ⟨m, hm, -⟩ := hb
        have hlen : (s.maps (platIcIsSpi k)).length ≤ i := List.getElem?_eq_none_iff.mp hmap
        have hlt := (List.getElem?_eq_some_iff.mp hm).choose
        exact absurd (hlt.trans_le hlen) hj
    | some m =>
      rw [hmap] at hc
      dsimp only at hc
      split at hc
      next heq =>
        refine h.goOn hc ⟨m, hmap, ?_, heq⟩ (by rw [hpc]; rfl)
        -- Only bound mappings have an interrupt that can be bound.
        rw [← Bool.not_eq_false]
        intro hfree
        have hm := h.free _ m hmap hfree
        rw [heq, hsgi] at hm
        cases hm
      next heq =>
        refine h.goOn hc (fun j hj hb => ?_) (by rw [hpc]; rfl)
        rcases Nat.lt_succ_iff_lt_or_eq.mp hj with hlt | rfl
        · exact hsrc j hlt hb
        · obtain ⟨m', hm', -, hintr'⟩ := hb
          rw [hmap] at hm'
          cases hm'
          exact heq hintr'
  | found k i =>
    cases hintr
    obtain ⟨m, hmap, hbd, heq⟩ := hsrc
    dsimp only at hc
    rw [hmap] at hc
    dsimp only at hc
    by_cases hdyn : isMapDynamic m
    · rw [if_pos hdyn, if_pos hbd] at hc
      cases hc
      refine ⟨h.bindTo (fun _ hi => (nomatch hi)) trivial, fun evNum hout _ => ?_⟩
      exact ⟨i, m, hmap, hbd, heq, some.inj hout⟩
    · rw [if_neg hdyn] at hc
      exact h.fail hc (by decide)
  | free k i =>
    dsimp only at hc
    generalize hmap : s.map? ⟨platIcIsSpi k, i⟩ = w at hc
    cases w with
    | none =>
      exact h.fail hc (by decide)
    | some =>
      dsimp only at hc
      split_ifs at hc
      · exact h.fail hc (by decide)
      · exact h.goOn hc hsrc (by rw [hpc]; rfl)
      · exact h.goOn hc hsrc (by rw [hpc]; rfl)
  | claim k i =>
    obtain rfl := some.inj hintr
    dsimp only at hc
    generalize hmap : s.map? ⟨platIcIsSpi k, i⟩ = u at hc
    cases u with
    | none =>
      cases hc
    | some m =>
      dsimp only at hc
      split_ifs at hc with hbd
      · exact h.goOn hc (fun j hj => absurd hj (Nat.not_lt_zero j)) (by rw [hpc]; rfl)
      · cases hc
        refine ⟨h.claim hpc hmap (Bool.eq_false_iff.mpr hbd), fun evNum hout _ => ?_⟩
        have hmap' : (Sdei.bindTo s pe .idle).map? ⟨platIcIsSpi k, i⟩ = some m := hmap
        refine ⟨i, setMapBound { m with intr := k } true, ?_, rfl, rfl, some.inj hout⟩
        rw [map?_setMap hmap', if_pos rfl]

/-! ### The other calls -/

theorem SameBindings.refl (s : Dispatcher n) : SameBindings s s := ⟨fun _ => rfl, fun _ => rfl⟩

theorem SameBindings.trans {t : Dispatcher n} (h : SameBindings s s') (h' : SameBindings s' t) :
    SameBindings s t :=
  ⟨fun r => (h'.maps r).trans (h.maps r), fun pe => (h'.binding pe).trans (h.binding pe)⟩

theorem sameBindings_setCpu {c : CpuState} (hmaps : s'.maps = s.maps)
    (hcpus : s'.cpus = (s.setCpu pe c).cpus) (hc : c.binding = (s.cpus pe).binding) :
    SameBindings s s' := by
  refine ⟨fun r => ?_, fun q => ?_⟩
  · rw [map?_congr hmaps]
  · rw [hcpus]
    exact cpus_setCpu CpuState.binding hc q

theorem sameBindings_setMap (hmap : s.map? r = some m) {count : Int}
    (hmaps : s'.maps = (s.setMap r { m with regCount := count }).maps) (hcpus : s'.cpus = s.cpus) :
    SameBindings s s' := by
  refine ⟨fun q => ?_, fun q => by rw [hcpus]⟩
  rw [map?_congr hmaps, map?_setMap hmap]
  split_ifs with hq
  · rw [hq, hmap]
    rfl
  · rfl

theorem sameBindings_dispatched {origin : Origin}
    (hd : Dispatched p pe r m origin s s') : SameBindings s s' := by
  obtain ⟨-, -, -, ctx, ns, rfl⟩ := hd
  exact sameBindings_setCpu rfl rfl rfl

/-- The event binds and releases nothing. -/
def Event.keepsBindings : Event n → Bool
  | .bind .. | .bindStep _ | .release .. | .sharedReset .. => false
  | _ => true

theorem sameBindings_move (hkp : event.keepsBindings = true) (hmove : Move p s event s') :
    SameBindings s s' := by
  cases hmove with
  | refuse => exact SameBindings.refl _
  | register hmap | unregister hmap => exact sameBindings_setMap hmap rfl rfl
  | enable | disable | routingSet => exact ⟨fun _ => rfl, fun _ => rfl⟩
  | bind | bindTo | claim | release => cases hkp
  | masked _ _ hmsk =>
    obtain ⟨-, -, rfl⟩ := hmsk
    exact sameBindings_setCpu rfl rfl rfl
  | interrupt _ _ _ hd | dispatch _ hd => exact sameBindings_dispatched hd
  | complete | mask | unmask | cpuOff | wakeup => exact sameBindings_setCpu rfl rfl rfl
  | @cpuOn pe =>
    have hon : SameBindings s (s.setCpu pe { s.cpus pe with online := true }) :=
      sameBindings_setCpu rfl rfl rfl
    exact hon.trans (sameBindings_setCpu rfl rfl rfl)

theorem sameBindings_step (hkp : event.keepsBindings = true) (hstep : s.step p event = some s') :
    SameBindings s s' := by
  refine step_moves hstep (sameBindings_move hkp) (SameBindings.refl s)
    (fun event' t t' hpart ht hmove => ht.trans (sameBindings_move ?_ hmove)) id
  cases hpart with
  | privately => rfl
  | shared | release => cases hkp

/-! ### Runs -/

/-- A PE starts to bind an interrupt only while no PE is binding it, and no event is
released while its interrupt is being bound. -/
def bindsAlone (s : Dispatcher n) : Event n → Bool
  | .bind _ intr => ∀ q, (s.cpus q).binding.intr? ≠ some intr
  | .release _ evNum _ =>
    (s.findEventMap evNum).all fun found => ∀ q, (s.cpus q).binding.intr? ≠ some found.2.intr
  | .sharedReset .. => ∀ q, (s.cpus q).binding = .idle
  | _ => true

/-- The event releases the interrupt. -/
def releases (intr : Nat) (s : Dispatcher n) : Event n → Bool
  | .release pe evNum active =>
    (sdeiInterruptRelease s pe evNum active).2 = 0 ∧
      (s.findEventMap evNum).any fun found => found.2.intr = intr
  | .sharedReset .. => true
  | _ => false

theorem BindingsOk.bind (h : BindingsOk s) (halo : bindsAlone s (.bind pe intr) = true) :
    BindingsOk (sdeiInterruptBind s pe intr).1 := by
  have hnone : ∀ q, (s.cpus q).binding.intr? ≠ some intr := of_decide_eq_true halo
  unfold sdeiInterruptBind
  split
  · exact h
  rename_i hsgi
  refine h.place (fun k hk => ?_) (fun q _ k hk => ?_) fun j hj => absurd hj (Nat.not_lt_zero j)
  · cases hk
    exact Bool.eq_false_iff.mpr hsgi
  · cases hk
    exact hnone q

theorem BindingsOk.release (h : BindingsOk s) {active : Nat → Bool}
    (halo : bindsAlone s (.release pe evNum active) = true)
    (hmove : Move p s (.release pe evNum active) s') : BindingsOk s' := by
  cases hmove with
  | refuse => exact h
  | release hmap hfind =>
    refine h.unbind hmap fun q => ?_
    have hall : ((s.findEventMap evNum).all fun found =>
        ∀ q, (s.cpus q).binding.intr? ≠ some found.2.intr) = true := halo
    rw [hfind] at hall
    exact of_decide_eq_true hall q

/-- A PE that takes a step of BIND is binding an interrupt. -/
theorem binding_of_bindStep (hc : sdeiInterruptBindStep p s pe = some (s', out)) :
    ∃ intr, (s.cpus pe).binding.intr? = some intr := by
  cases hpc : (s.cpus pe).binding with
  | idle =>
    unfold sdeiInterruptBindStep at hc
    rw [hpc] at hc
    cases hc
  | lookup intr i | found intr i | free intr i | claim intr i => exact ⟨intr, rfl⟩

/-- No PE is binding an interrupt. -/
def IdleBindings (s : Dispatcher n) : Prop :=
  BindingsOk s ∧ ∀ q, (s.cpus q).binding = .idle

theorem IdleBindings.move {s₀ : Dispatcher n} {event' : Event n} (h : IdleBindings s)
    (hpart : event.Resets s₀ event') (hmove : Move p s event' s') : IdleBindings s' := by
  cases hpart with
  | privately | shared =>
    have hsame := sameBindings_move rfl hmove
    exact ⟨h.1.same hsame, fun q => (hsame.binding q).trans (h.2 q)⟩
  | release =>
    cases hmove with
    | refuse => exact h
    | release hmap =>
      refine ⟨h.1.unbind hmap fun q hq => ?_, h.2⟩
      rw [h.2] at hq
      cases hq

theorem BindingsOk.step (h : BindingsOk s) (halo : bindsAlone s event = true)
    (hstep : s.step p event = some s') : BindingsOk s' := by
  by_cases hkp : event.keepsBindings
  · exact h.same (sameBindings_step hkp hstep)
  obtain ⟨-, hexec⟩ := step_eq_some hstep
  cases event with
  | bind =>
    cases hexec
    exact h.bind halo
  | bindStep =>
    obtain ⟨⟨t, out⟩, hc, rfl⟩ := map_eq_some_iff.mp hexec
    obtain ⟨intr, hintr⟩ := binding_of_bindStep hc
    exact (h.bindStep hc hintr).1
  | release =>
    cases hexec
    exact h.release halo (sdeiInterruptRelease_move (p := p))
  | sharedReset =>
    obtain ⟨ret, hc⟩ := exists_ret hexec
    have hidle : IdleBindings s := ⟨h, of_decide_eq_true halo⟩
    exact (sdeiSharedReset_invariant (fun _ _ _ hpart ht => ht.move hpart) hidle hc).1
  | _ => exact absurd rfl hkp

theorem Dispatcher.Started.bindingsOk (h : s.Started) (huniq : UniqueBindings s) :
    BindingsOk s := by
  refine ⟨huniq, fun r m hmap => (h.maps r m hmap).free, fun pe intr hpc => ?_,
    fun pe pe' intr hpc => ?_, fun pe => ?_⟩
  · rw [h.idle] at hpc
    cases hpc
  · rw [h.idle] at hpc
    cases hpc
  · rw [h.idle]
    trivial

/-- **An interrupt stays bound** to its event until it is released. -/
theorem Granted.move (hg : Granted s intr evNum) (hkept : releases intr s event = false)
    (hmove : Move p s event s') : Granted s' intr evNum := by
  obtain ⟨i, m, hmap, hbd, hintr, hnum⟩ := hg
  by_cases hkp : event.keepsBindings
  · obtain ⟨m', hmap', hnum', hintr', hbound'⟩ := (sameBindings_move hkp hmove).map? hmap
    exact ⟨i, m', hmap', hbound'.trans hbd, hintr'.trans hintr, hnum'.trans hnum⟩
  cases hmove with
  | refuse | bind | bindTo => exact ⟨i, m, hmap, hbd, hintr, hnum⟩
  | @claim pe k j m' _ hmap' hfree =>
    have hread : (bindTo s pe .idle).map? ⟨platIcIsSpi k, j⟩ = some m' := hmap'
    refine ⟨i, m, ?_, hbd, hintr, hnum⟩
    rw [map?_setMap hread, if_neg]
    · exact hmap
    · intro heq
      rw [heq, hmap'] at hmap
      cases hmap
      cases hbd.symm.trans hfree
  | release hmap' hfind hret =>
    refine ⟨i, m, ?_, hbd, hintr, hnum⟩
    rw [map?_setMap hmap', if_neg]
    · exact hmap
    · intro heq
      rw [heq, hmap'] at hmap
      cases hmap
      simp [releases, hret, hfind, hintr] at hkept
  | _ => exact absurd rfl hkp

theorem Granted.step (hg : Granted s intr evNum) (hkept : releases intr s event = false)
    (hstep : s.step p event = some s') : Granted s' intr evNum := by
  refine step_moves (q := fun t => Granted t intr evNum) hstep (hg.move hkept) hg
    (fun event' t t' hpart ht => ht.move ?_) id
  cases hpart with
  | privately => rfl
  | shared | release => cases hkept

/-- Two events that are bound to one interrupt are the same. -/
theorem Granted.eq {evNum evNum' : Int} (huniq : UniqueBindings s) (h : Granted s intr evNum)
    (h' : Granted s intr evNum') : evNum = evNum' := by
  obtain ⟨i, m, hmap, hbd, hintr, rfl⟩ := h
  obtain ⟨j, m', hmap', hbound', hintr', rfl⟩ := h'
  obtain rfl := huniq _ i j intr ⟨m, hmap, hbd, hintr⟩ ⟨m', hmap', hbound', hintr'⟩
  rw [hmap] at hmap'
  rw [some.inj hmap']

/-- **Bindings are unique** in every run in which an interrupt is bound by one PE at a time
and not released meanwhile, if they are at the start. Two calls for an interrupt that
succeed, the second one after a run in which the interrupt is not released, return the
same event. -/
theorem bindings_unique {table : Bool → List EvMap} {g : Gic n} {events : List (Event n)}
    (hinit : sdeiInit p table g = some s) (hunique : UniqueBindings s)
    (hrun : run (step p) s events = some s')
    (halone : Along (step p) (fun s event => bindsAlone s event = true) s events) :
    UniqueBindings s' ∧
    ∀ pe intr evNum t, (s'.cpus pe).binding.intr? = some intr →
      sdeiInterruptBindStep p s' pe = some (t, some evNum) → 0 ≤ evNum →
      ∀ events' t', run (step p) t events' = some t' →
        Along (step p) (fun s event => releases intr s event = false ∧
          bindsAlone s event = true) t events' →
      ∀ pe' evNum' u, (t'.cpus pe').binding.intr? = some intr →
        sdeiInterruptBindStep p t' pe' = some (u, some evNum') → 0 ≤ evNum' →
        evNum' = evNum := by
  have hs' : BindingsOk s' := run_invariant_along (fun _ _ _ => BindingsOk.step)
    ((sdeiInit_started hinit).bindingsOk hunique) halone hrun
  refine ⟨hs'.unique, fun pe intr evNum t hpc hbind hnn events' t' hrun' hok pe' evNum' u hpc'
    hbind' hnn' => ?_⟩
  obtain ⟨ht, hans⟩ := hs'.bindStep hbind hpc
  have ht' : BindingsOk t' ∧ Granted t' intr evNum := run_invariant_along
    (fun _ _ _ (h : BindingsOk _ ∧ Granted _ intr evNum) hok hstep =>
      ⟨h.1.step hok.2 hstep, h.2.step hok.1 hstep⟩) ⟨ht, hans evNum rfl hnn⟩ hok hrun'
  obtain ⟨hu, hanswer'⟩ := ht'.1.bindStep hbind' hpc'
  exact Granted.eq hu.unique (hanswer' evNum' rfl hnn')
    (ht'.2.move rfl (sdeiInterruptBindStep_move hbind'))

/-- PE 0 comes up to its claim of a mapping for an interrupt. -/
def bindFirstCall : List (Event 2) :=
  [.cpuOn 1, .bind 0 50] ++ List.replicate 6 (.bindStep 0)

/-- After that, PE 1 looks up the same interrupt. -/
def bindSecondCall : List (Event 2) := .bind 1 50 :: List.replicate 2 (.bindStep 1)

/-- Bindings are unique if the mappings of each array are bound to different interrupts. -/
theorem uniqueBindings_of_pairwise (h : ∀ shared, (s.maps shared).Pairwise fun m m' =>
      isMapBound m = true → isMapBound m' = true → m.intr ≠ m'.intr) : UniqueBindings s := by
  intro shared i j intr hi hj
  obtain ⟨m, hm, hbd, hintr⟩ := hi
  obtain ⟨m', hm', hbound', hintr'⟩ := hj
  obtain ⟨hlt, heq⟩ := List.getElem?_eq_some_iff.mp hm
  obtain ⟨hlt', heq'⟩ := List.getElem?_eq_some_iff.mp hm'
  have hpair := List.pairwise_iff_getElem.mp (h shared)
  rcases Nat.lt_trichotomy i j with hij | hij | hij
  · exact absurd (hintr.trans hintr'.symm)
      (by simpa [heq, heq', hbd, hbound'] using hpair i j hlt hlt' hij)
  · exact hij
  · exact absurd (hintr'.trans hintr.symm)
      (by simpa [heq, heq', hbd, hbound'] using hpair j i hlt' hlt hij)

theorem sampleStart_unique (assertions : Bool) : UniqueBindings (sampleStart assertions) := by
  apply uniqueBindings_of_pairwise
  cases assertions <;> decide +kernel

theorem bindings_unique_in_turn :
    ∃ s' t t' u evNum,
      run (step (samplePlatform true)) (sampleStart true) bindFirstCall = some s' ∧
      sdeiInterruptBindStep (samplePlatform true) s' 0 = some (t, some 3000) ∧
      run (step (samplePlatform true)) t bindSecondCall = some t' ∧
      sdeiInterruptBindStep (samplePlatform true) t' 1 = some (u, some evNum) ∧
      UniqueBindings s' ∧ evNum = 3000 := by
  have halo : Along (step (samplePlatform true))
      (fun s event => bindsAlone s event = true) (sampleStart true) bindFirstCall := by
    decide +kernel
  simp only [exists_and_left]
  refine exists_some_imp (q := fun s' => (s'.cpus 0).binding.intr? = some 50 ∧
    ∃ t, sdeiInterruptBindStep (samplePlatform true) s' 0 = some (t, some 3000) ∧
      Along (step (samplePlatform true)) (fun s event => releases 50 s event = false ∧
        bindsAlone s event = true) t bindSecondCall ∧
      ∃ t', run (step (samplePlatform true)) t bindSecondCall = some t' ∧
        (t'.cpus 1).binding.intr? = some 50 ∧
        ∃ u, sdeiInterruptBindStep (samplePlatform true) t' 1 = some (u, some 3000) ∧ True)
    (by decide +kernel) fun s' hrun hend => ?_
  obtain ⟨hpc, t, hbind, hok, t', hrun', hpc', u, hbind', -⟩ := hend
  obtain ⟨huniq, hsame⟩ :=
    bindings_unique (sampleStart_init true) (sampleStart_unique true) hrun halo
  exact ⟨t, hbind, t', hrun', u, 3000, hbind', huniq,
    hsame 0 50 3000 t hpc hbind (by decide) bindSecondCall t' hrun' hok 1 3000 u hpc' hbind'
      (by decide)⟩

/-- PE 1 looks an interrupt up, without success, and PE 0 comes up to its claim of a mapping
for the same interrupt. -/
def bindTogether : List (Event 2) :=
  [.cpuOn 1, .bind 1 50] ++ List.replicate 4 (.bindStep 1) ++ [.bind 0 50] ++
    List.replicate 6 (.bindStep 0)

/-- **An interrupt is bound twice**: the call of PE 0 returns event 3000, and that of PE 1,
which goes on with its search for a free mapping, event 3001. -/
theorem bound_twice :
    ∃ s₁ t₁ s₂ t₂,
      run (step (samplePlatform true)) (sampleStart true) bindTogether = some s₁ ∧
      sdeiInterruptBindStep (samplePlatform true) s₁ 0 = some (t₁, some 3000) ∧
      run (step (samplePlatform true)) t₁ (List.replicate 3 (.bindStep 1)) = some s₂ ∧
      sdeiInterruptBindStep (samplePlatform true) s₂ 1 = some (t₂, some 3001) ∧
      BoundTo t₂ ⟨true, 1⟩ 50 ∧ BoundTo t₂ ⟨true, 2⟩ 50 := by
  simp only [exists_and_left]
  decide +kernel

end TrustedFirmware.Sdei
