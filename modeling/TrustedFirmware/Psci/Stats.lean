import Mathlib.Algebra.BigOperators.Group.Finset.Piecewise
import TrustedFirmware.Psci.TreeLimits

/-!
# The PSCI statistics (`lib/psci/psci_stat.c`, built with `ENABLE_PSCI_STAT`)

For each power domain, how often it came out of each low-power state. A CPU that takes a
domain down leaves its index in `last_cpu_in_non_cpu_pd[]`; the CPU that brings the
domain up finds it there, counts, and removes it.

Beside the arrays of the source the machine keeps what they are to be compared with: which
domains are in a low-power state that they have entered since boot, and the states that
each of them has come out of. Both are read off the power states alone.

`psci_stats_update_pwr_up` returns early when the domain just above the CPU has never been
taken down. A domain further up may have been: then that one is not counted.
-/

namespace TrustedFirmware.Psci.Domains

open Lib List Option PowerTree Function

variable {cfg : Config}

/-! ### The arrays and their updates -/

/-- `psci_stat_t`. -/
structure PsciStat where
  residency : Nat
  count : Nat
  deriving Repr, DecidableEq

/-- What the statistics depend on. -/
structure StatsConfig (cfg : Config) where
  /-- The number of bits of an `u_register_t`. -/
  registerBits : Nat
  /-- `PLAT_MAX_PWR_LVL_STATES`. -/
  platMaxPwrLvlStates : Nat
  /-- The hook `get_pwr_lvl_state_idx`, which is optional. -/
  getPwrLvlStateIdx : Option (LocalState cfg → Nat → Nat)
  /-- The porting guide has the hook return an index below `PLAT_MAX_PWR_LVL_STATES`. -/
  getPwrLvlStateIdx_lt : ∀ f, getPwrLvlStateIdx = some f →
    ∀ state lvl, f state lvl < platMaxPwrLvlStates
  /-- The hook is needed only for more than two states. -/
  platMaxPwrLvlStates_eq : getPwrLvlStateIdx = none → platMaxPwrLvlStates = 2

/-- The arrays of `psci_stat.c`; the -1 of `last_cpu_in_non_cpu_pd[]` is `none`. -/
structure Stats where
  lastCpuInNonCpuPd : Nat → Option Nat
  psciCpuStat : Nat → Nat → PsciStat
  psciNonCpuStat : Nat → Nat → PsciStat

/-- The arrays as they are initialised. -/
def Stats.zero : Stats where
  lastCpuInNonCpuPd _ := none
  psciCpuStat _ _ := ⟨0, 0⟩
  psciNonCpuStat _ _ := ⟨0, 0⟩

variable (P : StatsConfig cfg)

/-- `get_stat_idx`. -/
def getStatIdx (localState : LocalState cfg) (pwrLvl : Nat) : Option Nat :=
  match P.getPwrLvlStateIdx with
  | none =>
    if P.platMaxPwrLvlStates = 2 then
      if isLocalStateRetn localState then some 0
      else if isLocalStateOff localState then some 1
      else none
    else none
  | some f =>
    if f localState pwrLvl < P.platMaxPwrLvlStates then some (f localState pwrLvl) else none

/-- One more stay of this length, in `u_register_t`. -/
def PsciStat.add (stat : PsciStat) (residency : Nat) : PsciStat where
  residency := (stat.residency + residency) % 2 ^ P.registerBits
  count := (stat.count + 1) % 2 ^ P.registerBits

/-- The loop of `psci_stats_update_pwr_down`, over the domains above a CPU. -/
def markLast (cpuIdx : Nat) (info : StateInfo cfg) : (lvl : Nat) → List Nat → Stats → Stats
  | _, [], st => st
  | lvl, n :: nodes, st =>
    if isLocalStateRun (info lvl) then st
    else markLast cpuIdx info (lvl + 1) nodes
      { st with lastCpuInNonCpuPd := update st.lastCpuInNonCpuPd n (some cpuIdx) }

/-- `psci_stats_update_pwr_down`. -/
def psciStatsUpdatePwrDown (t : Tree) (cpuIdx endPwrlvl : Nat) (info : StateInfo cfg)
    (st : Stats) : Option Stats :=
  if endPwrlvl ≤ cfg.platMaxPwrLvl then
    (psciGetParentPwrDomainNodes cfg t cpuIdx endPwrlvl).map fun nodes =>
      markLast cpuIdx info 1 nodes st
  else none

/-- What `plat_psci_stat_get_residency` returns, for a level, the states and a CPU. -/
abbrev Residency (cfg : Config) := Nat → StateInfo cfg → Nat → Nat

/-- The loop of `psci_stats_update_pwr_up`, over the domains above a CPU. -/
def countExits (residency : Residency cfg) (info : StateInfo cfg) : (lvl : Nat) → List Nat →
    Stats → Option Stats
  | _, [], st => some st
  | lvl, n :: nodes, st =>
    if isLocalStateRun (info lvl) then some st
    else do
      let last ← st.lastCpuInNonCpuPd n
      let idx ← getStatIdx P (info lvl) lvl
      countExits residency info (lvl + 1) nodes
        { st with
          lastCpuInNonCpuPd := update st.lastCpuInNonCpuPd n none
          psciNonCpuStat := update st.psciNonCpuStat n (update
            (st.psciNonCpuStat n) idx
            ((st.psciNonCpuStat n idx).add P (residency lvl info last))) }

/-- The update of the statistics of the CPU itself, in `psci_stats_update_pwr_up`. -/
def countCpu (residency : Residency cfg) (cpuIdx : Nat) (info : StateInfo cfg) (st : Stats) :
    Option Stats :=
  (getStatIdx P (info 0) 0).map fun idx =>
    { st with psciCpuStat := update st.psciCpuStat cpuIdx (update
        (st.psciCpuStat cpuIdx) idx
        ((st.psciCpuStat cpuIdx idx).add P (residency 0 info cpuIdx))) }

/-- `psci_stats_update_pwr_up`. -/
def psciStatsUpdatePwrUp (residency : Residency cfg) (t : Tree) (cpuIdx endPwrlvl : Nat)
    (info : StateInfo cfg) (st : Stats) : Option Stats :=
  if endPwrlvl ≤ cfg.platMaxPwrLvl then do
    let st ← countCpu P residency cpuIdx info st
    if st.lastCpuInNonCpuPd (t.cpuParent cpuIdx) = none then some st
    else do
      let nodes ← psciGetParentPwrDomainNodes cfg t cpuIdx endPwrlvl
      countExits P residency info 1 nodes st
  else none

/-! ### The system with its statistics -/

/-- The state of the system and its statistics, with what they are compared with. -/
structure StatState (cfg : Config) where
  state : State cfg
  stats : Stats
  /-- An assertion of `psci_stat.c` has failed. -/
  assertFailed : Bool
  /-- The domains that are in a low-power state which they have entered since boot. -/
  entered : Nat → Bool
  /-- The low-power states, of those entered since boot, that each domain has left. -/
  exits : Nat → List (LocalState cfg)

/-- The call that a step makes into `psci_stat.c`; `none` if an assertion fails. -/
def StatsCall.apply (residency : Residency cfg) (t : Tree) : StatsCall cfg → Stats → Option Stats
  | .none, st => some st
  | .down cpuIdx endPwrlvl info, st => psciStatsUpdatePwrDown t cpuIdx endPwrlvl info st
  | .up cpuIdx endPwrlvl info, st =>
    psciStatsUpdatePwrUp P residency t cpuIdx endPwrlvl info st

/-- The domains in a low-power state entered since boot, after a step from `s` to `s'`. -/
def enteredAfter (s s' : State cfg) (entered : Nat → Bool) (n : Nat) : Bool :=
  !isLocalStateRun (s'.localState n) && (isLocalStateRun (s.localState n) || entered n)

/-- The low-power states that a domain has left, after a step from `s` to `s'`. -/
def exitsAfter (s s' : State cfg) (entered : Nat → Bool) (exits : Nat → List (LocalState cfg))
    (n : Nat) : List (LocalState cfg) :=
  if entered n ∧ isLocalStateRun (s'.localState n) then s.localState n :: exits n else exits n

/-- One step of the system, where `residency` is what the platform would measure. -/
def statStep (t : Tree) (x : StatState cfg) (e : Event cfg × Residency cfg) :
    Option (StatState cfg) :=
  (step t x.state e.1).map fun r =>
    let stats := r.2.apply P e.2 t x.stats
    { state := r.1
      stats := stats.getD x.stats
      assertFailed := x.assertFailed || stats.isNone
      entered := enteredAfter x.state r.1 x.entered
      exits := exitsAfter x.state r.1 x.entered x.exits }

/-! ### What the loops do -/

variable {P} {state : LocalState cfg}

theorem isLocalStateRun_iff : isLocalStateRun state = true ↔ state = localStateRun cfg := by
  simp [isLocalStateRun]

theorem getStatIdx_eq_some (lvl : Nat) (h : state ≠ localStateRun cfg) :
    ∃ idx, getStatIdx P state lvl = some idx ∧ idx < P.platMaxPwrLvlStates := by
  rw [getStatIdx]
  cases hhook : P.getPwrLvlStateIdx with
  | none =>
    have htwo := P.platMaxPwrLvlStates_eq hhook
    rw [if_pos htwo, htwo]
    by_cases hretn : isLocalStateRetn state = true
    · exact ⟨0, if_pos hretn, by omega⟩
    · have hpos : 0 < state.val := pos_of_ne_zero fun hz => h (Fin.ext hz)
      have hoff : isLocalStateOff state = true := by
        simp only [isLocalStateRetn, isLocalStateOff, decide_eq_true_eq] at hretn ⊢
        omega
      exact ⟨1, by rw [if_neg hretn, if_pos hoff], by omega⟩
  | some f =>
    have hlt := P.getPwrLvlStateIdx_lt f hhook state lvl
    exact ⟨_, if_pos hlt, hlt⟩

/-- The domains of a list from level `lvl` on, of which those in `RUN` come last. -/
structure RunLast (info : StateInfo cfg) (lvl : Nat) (nodes : List Nat) : Prop where
  nodup : nodes.Nodup
  up : ∀ k n n', nodes[k]? = some n → nodes[k + 1]? = some n' →
    info (lvl + k) = localStateRun cfg → info (lvl + k + 1) = localStateRun cfg

variable {info : StateInfo cfg} {n : Nat} {nodes : List Nat}

theorem RunLast.tail {lvl : Nat} (h : RunLast info lvl (n :: nodes)) :
    RunLast info (lvl + 1) nodes := by
  refine ⟨(nodup_cons.mp h.nodup).2, fun k m m' hm hm' hrun => ?_⟩
  have hup := h.up (k + 1) m m' (by simpa using hm) (by simpa using hm')
  rw [show lvl + (k + 1) = lvl + 1 + k by omega] at hup
  exact hup hrun

section

variable {lvl : Nat} {level : Nat → Nat} (hl : ∀ k n, nodes[k]? = some n → level n = lvl + k)
include hl

theorem RunLast.all (h : RunLast info lvl nodes) (hrun : info lvl = localStateRun cfg)
    (hn : n ∈ nodes) : info (level n) = localStateRun cfg := by
  obtain ⟨k, hk⟩ := getElem?_of_mem hn
  rw [hl k n hk]
  exact forall_getElem?_of_succ
    (fun _ _ => hrun) h.up k n hk

/-- `psci_stats_update_pwr_down` marks the domains that leave `RUN`, and no others. -/
theorem markLast_spec (c : Nat) (st : Stats) (h : RunLast info lvl nodes) :
    (∀ n ∈ nodes, info (level n) ≠ localStateRun cfg →
      (markLast c info lvl nodes st).lastCpuInNonCpuPd n = some c) ∧
    (∀ n, (n ∈ nodes → info (level n) = localStateRun cfg) →
      (markLast c info lvl nodes st).lastCpuInNonCpuPd n = st.lastCpuInNonCpuPd n) ∧
    (markLast c info lvl nodes st).psciNonCpuStat = st.psciNonCpuStat := by
  induction nodes generalizing lvl st with
  | nil => exact ⟨fun n hn => absurd hn not_mem_nil, fun n _ => rfl, rfl⟩
  | cons m nodes ih =>
    by_cases hrun : info lvl = localStateRun cfg
    · rw [markLast, if_pos (isLocalStateRun_iff.mpr hrun)]
      exact ⟨fun n hn hne => absurd (h.all hl hrun hn) hne, fun n _ => rfl, rfl⟩
    · rw [markLast, if_neg (by rwa [isLocalStateRun_iff])]
      obtain ⟨hin, hout, hstat⟩ := ih (level_tail hl)
        { st with lastCpuInNonCpuPd := update st.lastCpuInNonCpuPd m (some c) } h.tail
      refine ⟨fun n hn hne => ?_, fun n hn => ?_, hstat⟩
      · by_cases htl : n ∈ nodes
        · exact hin n htl hne
        · obtain rfl := (mem_cons.mp hn).resolve_right htl
          rw [hout n fun h => absurd h htl]
          simp
      · have hnm : n ≠ m := by
          rintro rfl
          exact hrun ((congrArg info (hl 0 n rfl)).symm.trans (hn mem_cons_self))
        rw [hout n fun h => hn (mem_cons_of_mem m h)]
        simp [hnm]

end

/-- The count of a state goes up by one. -/
def countAfter (P : StatsConfig cfg) (stat : Nat → PsciStat) (state : LocalState cfg) (lvl : Nat)
    (idx : Nat) : Nat :=
  if getStatIdx P state lvl = some idx then ((stat idx).count + 1) % 2 ^ P.registerBits
  else (stat idx).count

/-- `psci_stats_update_pwr_up` counts the domains that come out of a low-power state, and
no others, if they are all marked. -/
theorem countExits_spec (residency : Residency cfg) {lvl : Nat} {level : Nat → Nat}
    (hl : ∀ k n, nodes[k]? = some n → level n = lvl + k) (st : Stats) (h : RunLast info lvl nodes)
    (hmk : ∀ n ∈ nodes, info (level n) ≠ localStateRun cfg → st.lastCpuInNonCpuPd n ≠ none) :
    ∃ st', countExits P residency info lvl nodes st = some st' ∧
      (∀ n ∈ nodes, info (level n) ≠ localStateRun cfg →
        st'.lastCpuInNonCpuPd n = none ∧ ∀ idx, (st'.psciNonCpuStat n idx).count =
          countAfter P (st.psciNonCpuStat n) (info (level n)) (level n) idx) ∧
      ∀ n, (n ∈ nodes → info (level n) = localStateRun cfg) →
        st'.lastCpuInNonCpuPd n = st.lastCpuInNonCpuPd n ∧
          st'.psciNonCpuStat n = st.psciNonCpuStat n := by
  induction nodes generalizing lvl st with
  | nil => exact ⟨st, rfl, fun n hn => absurd hn not_mem_nil, fun n _ => ⟨rfl, rfl⟩⟩
  | cons m nodes ih =>
    by_cases hrun : info lvl = localStateRun cfg
    · rw [countExits, if_pos (isLocalStateRun_iff.mpr hrun)]
      exact ⟨st, rfl, fun n hn hne => absurd (h.all hl hrun hn) hne, fun n _ => ⟨rfl, rfl⟩⟩
    · rw [countExits, if_neg (by rwa [isLocalStateRun_iff])]
      have hm : level m = lvl := hl 0 m rfl
      obtain ⟨last, hlast⟩ := ne_none_iff_exists'.mp (hmk m mem_cons_self (by rwa [hm]))
      obtain ⟨idx, hidx, -⟩ := getStatIdx_eq_some lvl hrun
      have hne : ∀ n ∈ nodes, n ≠ m := fun n hn heq => (nodup_cons.mp h.nodup).1 (heq ▸ hn)
      obtain ⟨st', hst', hin, hout⟩ := ih (level_tail hl)
        { st with
          lastCpuInNonCpuPd := update st.lastCpuInNonCpuPd m none
          psciNonCpuStat := update st.psciNonCpuStat m (update (st.psciNonCpuStat m) idx
            ((st.psciNonCpuStat m idx).add P (residency lvl info last))) }
        h.tail fun n hn hlow => by
          simp only [update_of_ne (hne n hn)]
          exact hmk n (mem_cons_of_mem m hn) hlow
      refine ⟨st', by rw [hlast, hidx]; exact hst', fun n hn hlow => ?_, fun n hn => ?_⟩
      · rcases mem_cons.mp hn with rfl | hn
        · obtain ⟨hlast', hstat'⟩ := hout n fun hn => absurd rfl (hne n hn)
          rw [hlast', hstat', hm]
          refine ⟨by simp, fun i => ?_⟩
          rw [countAfter, hidx]
          obtain rfl | hi := eq_or_ne i idx
          · simp [PsciStat.add]
          · simp [hi, Ne.symm hi]
        · obtain ⟨hlast', hstat'⟩ := hin n hn hlow
          simp only [update_of_ne (hne n hn)] at hstat'
          exact ⟨hlast', hstat'⟩
      · have hnm : n ≠ m := by
          rintro rfl
          exact hrun (hm ▸ hn mem_cons_self)
        simpa [update_of_ne hnm] using hout n fun h => hn (mem_cons_of_mem m h)

/-! ### Domains since boot -/

variable {T : PowerTree cfg} {x : StatState cfg} {s s' : State cfg}

/-- The domain has been in `RUN` since boot: it is in `RUN`, or in a low-power state that
it has entered. -/
def Known (s : State cfg) (entered : Nat → Bool) (n : Nat) : Prop :=
  s.localState n = localStateRun cfg ∨ entered n = true

theorem Known.entered {entered : Nat → Bool} (h : Known s entered n)
    (hlow : s.localState n ≠ localStateRun cfg) : entered n = true :=
  h.resolve_left hlow

theorem enteredAfter_iff {entered : Nat → Bool} : enteredAfter s s' entered n = true ↔
      s'.localState n ≠ localStateRun cfg ∧ Known s entered n := by
  simp [enteredAfter, Known, isLocalStateRun]

/-- Once in `RUN`, always known. -/
theorem Known.after {entered : Nat → Bool} (h : Known s entered n) :
    Known s' (enteredAfter s s' entered) n := by
  by_cases hrun : s'.localState n = localStateRun cfg
  · exact .inl hrun
  · exact .inr (enteredAfter_iff.mpr ⟨hrun, h⟩)

theorem exitsAfter_of_not {entered : Nat → Bool} {exits : Nat → List (LocalState cfg)}
    (hent : ¬ entered n = true) : exitsAfter s s' entered exits n = exits n :=
  if_neg fun h => hent h.1

/-- A domain that a step leaves alone stays entered or not, -/
theorem enteredAfter_of_eq {entered : Nat → Bool}
    (hlow : entered n = true → s.localState n ≠ localStateRun cfg)
    (hloc : s'.localState n = s.localState n) :
    enteredAfter s s' entered n = entered n := by
  cases hent : entered n with
  | true => simp [enteredAfter, hloc, isLocalStateRun, hent, hlow hent]
  | false => simp only [enteredAfter, hloc, hent, Bool.or_false, Bool.not_and_self]

/-- and leaves nothing. -/
theorem exitsAfter_of_eq {entered : Nat → Bool} {exits : Nat → List (LocalState cfg)}
    (hlow : entered n = true → s.localState n ≠ localStateRun cfg)
    (hloc : s'.localState n = s.localState n) :
    exitsAfter s s' entered exits n = exits n := by
  refine if_neg fun h => hlow h.1 ?_
  rw [isLocalStateRun_iff, hloc] at h
  exact h.2

variable (T) in
/-- What holds in every run: a domain that is in a low-power state which it has entered is
marked, and what has been in `RUN` has only what has been in `RUN` above it. -/
structure StatInv (x : StatState cfg) : Prop where
  tree : TreeInv T x.state
  low : ∀ n, x.entered n = true → x.state.localState n ≠ localStateRun cfg
  up : ∀ n < T.numDomains, (T.nonCpu n).level < cfg.platMaxPwrLvl →
    Known x.state x.entered n → Known x.state x.entered (T.nonCpu n).parentNode
  booted : ∀ c < cfg.platformCoreCount, x.state.pos c ≠ .off → ∀ i < cfg.platMaxPwrLvl,
    Known x.state x.entered (T.ancestor c i)
  marked : ∀ n < T.numDomains, x.entered n = true → x.stats.lastCpuInNonCpuPd n ≠ none
  known : ∀ n < T.numDomains, x.stats.lastCpuInNonCpuPd n ≠ none → Known x.state x.entered n
  passed : x.assertFailed = false

variable (T P) in
/-- The statistics are exact: only the domains in a low-power state which they have
entered are marked, and the counts are those of the states that the domain has left. -/
structure StatExact (x : StatState cfg) : Prop where
  last : ∀ n < T.numDomains, x.stats.lastCpuInNonCpuPd n ≠ none → x.entered n = true
  count : ∀ n < T.numDomains, ∀ idx, (x.stats.psciNonCpuStat n idx).count =
    (x.exits n).countP (fun state => getStatIdx P state (T.nonCpu n).level = some idx) %
      2 ^ P.registerBits
  exits : ∀ n, ∀ state ∈ x.exits n, state ≠ localStateRun cfg

variable {c : Nat}

/-- What goes from a domain to its parent goes from the one just above a CPU to all of them. -/
theorem PowerTree.ancestor_induction {motive : Nat → Prop} (hc : c < cfg.platformCoreCount)
    (hup : ∀ n < T.numDomains, (T.nonCpu n).level < cfg.platMaxPwrLvl → motive n →
      motive (T.nonCpu n).parentNode) (h0 : motive (T.ancestor c 0)) (i)
    (hi : i < cfg.platMaxPwrLvl) : motive (T.ancestor c i) := by
  induction i with
  | zero => exact h0
  | succ i ih =>
    refine hup _ (T.ancestor_lt c hc i (by omega)) ?_ (ih (by omega))
    rw [T.level_ancestor c hc i (by omega)]
    exact hi

variable {e : Nat} {stats : Stats}

/-- The domains above a CPU that are in `RUN` come last. -/
theorem TreeInv.runLast (h : TreeInv T s) (hc : c < cfg.platformCoreCount)
    (he : e ≤ cfg.platMaxPwrLvl) (hinfo : ∀ i < e, info (i + 1) = s.localState (T.ancestor c i)) :
    RunLast info 1 (T.above c e) := by
  refine ⟨above_nodup hc he, fun k n n' hn hn' hrun => ?_⟩
  obtain ⟨hk, rfl⟩ := above_getElem? hn
  obtain ⟨hk', rfl⟩ := above_getElem? hn'
  rw [add_comm, hinfo k hk] at hrun
  rw [show 1 + k + 1 = k + 1 + 1 by omega, hinfo (k + 1) hk']
  refine h.parent_run (T.ancestor_lt c hc k (by omega)) ?_ hrun
  rw [T.level_ancestor c hc k (by omega)]
  omega

section

variable (hc : c < cfg.platformCoreCount) (he : e ≤ cfg.platMaxPwrLvl)
include hc he

omit hc he in
theorem PowerTree.forall_above {q : Nat → Prop} (h : ∀ i < e, q (T.ancestor c i)) :
    ∀ n ∈ T.above c e, q n := by
  intro n hn
  obtain ⟨i, hi, rfl⟩ := mem_above.mp hn
  exact h i hi

theorem PowerTree.lt_of_mem_above : ∀ n ∈ T.above c e, n < T.numDomains :=
  forall_above fun i _ => T.ancestor_lt c hc i (by omega)

theorem PowerTree.info_level (hinfo : ∀ i < e, info (i + 1) = s.localState (T.ancestor c i)) :
    ∀ n ∈ T.above c e, info (T.nonCpu n).level = s.localState n :=
  forall_above fun i hi => by rw [T.level_ancestor c hc i (by omega), hinfo i hi]

end

/-! ### One step -/

/-- The system after a step to `s'` with these statistics. -/
def StatState.moved (x : StatState cfg) (s' : State cfg) (stats : Stats) : StatState cfg :=
  ⟨s', stats, false, enteredAfter x.state s' x.entered, exitsAfter x.state s' x.entered x.exits⟩

variable (T x s' c e stats) in
/-- The domains that are not above the CPU are left alone, with their counts and marks. -/
def LeavesOthers : Prop :=
  ∀ n, n ∉ T.above c e → s'.localState n = x.state.localState n ∧
    stats.lastCpuInNonCpuPd n = x.stats.lastCpuInNonCpuPd n ∧
    stats.psciNonCpuStat n = x.stats.psciNonCpuStat n

/-- The invariant after a step, of which the domains above the CPU are all that matters. -/
theorem StatInv.moved (h : StatInv T x) {call : StatsCall cfg} (hstep : StepOk T x.state s' call)
    (hout : LeavesOthers T x s' c e stats)
    (hmk : ∀ n ∈ T.above c e, enteredAfter x.state s' x.entered n = true →
      stats.lastCpuInNonCpuPd n ≠ none)
    (hkn : ∀ n ∈ T.above c e, Known s' (enteredAfter x.state s' x.entered) n) :
    StatInv T (x.moved s' stats) where
  tree := hstep.inv
  low n hn := (enteredAfter_iff.mp hn).1
  up n hn hlvl hkn := by
    rcases hkn with hrun | hent
    · exact .inl (hstep.inv.parent_run hn hlvl hrun)
    · exact (h.up n hn hlvl (enteredAfter_iff.mp hent).2).after
  booted c hc hpos i hi := by
    rcases hstep.boots c hpos with hpos' | hru
    · exact (h.booted c hc hpos' i hi).after
    · exact .inl (hstep.inv.powerStatesOk.running c hc hru i hi).2
  marked n hn hent := by
    by_cases hmem : n ∈ T.above c e
    · exact hmk n hmem hent
    · obtain ⟨hloc, hlast, -⟩ := hout n hmem
      simp only [StatState.moved] at hent ⊢
      rw [enteredAfter_of_eq (h.low n) hloc] at hent
      rw [hlast]
      exact h.marked n hn hent
  known n hn hne := by
    by_cases hmem : n ∈ T.above c e
    · exact hkn n hmem
    · obtain ⟨-, hlast, -⟩ := hout n hmem
      simp only [StatState.moved, hlast] at hne
      exact (h.known n hn hne).after
  passed := rfl

/-- The statistics stay exact if they do so for the domains above the CPU. -/
theorem StatExact.moved (hx : StatExact P T x) (h : StatInv T x)
    (hout : LeavesOthers T x s' c e stats)
    (hlast : ∀ n ∈ T.above c e, stats.lastCpuInNonCpuPd n ≠ none →
      enteredAfter x.state s' x.entered n = true)
    (hcnt : ∀ n ∈ T.above c e, ∀ idx, (stats.psciNonCpuStat n idx).count =
      (exitsAfter x.state s' x.entered x.exits n).countP
        (fun state => getStatIdx P state (T.nonCpu n).level = some idx) % 2 ^ P.registerBits) :
    StatExact P T (x.moved s' stats) where
  last n hn hne := by
    by_cases hmem : n ∈ T.above c e
    · exact hlast n hmem hne
    · obtain ⟨hloc, hlast', -⟩ := hout n hmem
      simp only [StatState.moved] at hne ⊢
      rw [enteredAfter_of_eq (h.low n) hloc]
      rw [hlast'] at hne
      exact hx.last n hn hne
  count n hn idx := by
    by_cases hmem : n ∈ T.above c e
    · exact hcnt n hmem idx
    · obtain ⟨hloc, -, hstat⟩ := hout n hmem
      simp only [StatState.moved]
      rw [exitsAfter_of_eq (h.low n) hloc, hstat]
      exact hx.count n hn idx
  exits n state hst := by
    simp only [StatState.moved, exitsAfter] at hst
    split_ifs at hst with hleft
    · rcases mem_cons.mp hst with rfl | hst
      · exact h.low n hleft.1
      · exact hx.exits n state hst
    · exact hx.exits n state hst

/-- A step that changes no power state of a domain and makes no call. -/
theorem StatInv.idle (h : StatInv T x) (hstep : StepOk T x.state s' .none)
    (hloc : s'.localState = x.state.localState) :
    StatInv T (x.moved s' x.stats) ∧ (StatExact P T x → StatExact P T (x.moved s' x.stats)) := by
  have hout : LeavesOthers T x s' 0 0 x.stats := fun n _ => ⟨congrFun hloc n, rfl, rfl⟩
  have hno : ∀ {q : Nat → Prop}, ∀ n ∈ T.above 0 0, q n := fun n hn => absurd hn not_mem_nil
  exact ⟨h.moved hstep hout hno hno, fun hx => hx.moved h hout hno hno⟩

theorem StatInv.down (h : StatInv T x) (hstep : StepOk T x.state s' (.down c e info))
    (hc : c < cfg.platformCoreCount) (he : e ≤ cfg.platMaxPwrLvl)
    (hru : x.state.pos c = .running)
    (hout : ∀ n, n ∉ T.above c e → s'.localState n = x.state.localState n)
    (hinfo : ∀ i < e, info (i + 1) = s'.localState (T.ancestor c i)) :
    ∃ stats, psciStatsUpdatePwrDown T.toTree c e info x.stats = some stats ∧
      StatInv T (x.moved s' stats) ∧
      (StatExact P T x → StatExact P T (x.moved s' stats)) := by
  obtain ⟨hin, hrest, hstat⟩ :=
    markLast_spec (level_above hc he) c x.stats (hstep.inv.runLast hc he hinfo)
  have hloc := info_level hc he hinfo
  -- the domains above the CPU are in `RUN`, and so have not entered anything
  have hrun : ∀ n ∈ T.above c e, x.state.localState n = localStateRun cfg :=
    forall_above fun i _ => (h.tree.powerStatesOk.running c hc hru i (by omega)).2
  have hnot : ∀ n ∈ T.above c e, ¬ x.entered n = true := fun n hn hent =>
    h.low n hent (hrun n hn)
  have hoth : LeavesOthers T x s' c e (markLast c info 1 (T.above c e) x.stats) := fun n hn =>
    ⟨hout n hn, hrest n fun h => absurd h hn, congrFun hstat n⟩
  refine ⟨markLast c info 1 (T.above c e) x.stats, ?_, h.moved hstep hoth (fun n hn hent => ?_)
    fun n hn => Known.after (.inl (hrun n hn)), fun hx => hx.moved h hoth (fun n hn hne => ?_)
    fun n hn idx => ?_⟩
  · rw [psciStatsUpdatePwrDown, if_pos he, psciGetParentPwrDomainNodes_eq hc he]
    rfl
  · rw [hin n hn (by rw [hloc n hn]; exact (enteredAfter_iff.mp hent).1)]
    simp
  · by_cases hrun' : s'.localState n = localStateRun cfg
    · rw [hrest n fun h => (hloc n h).trans hrun'] at hne
      exact absurd (hx.last n (lt_of_mem_above hc he n hn) hne) (hnot n hn)
    · exact enteredAfter_iff.mpr ⟨hrun', .inl (hrun n hn)⟩
  · rw [exitsAfter_of_not (hnot n hn), hstat]
    exact hx.count n (lt_of_mem_above hc he n hn) idx

theorem countCpu_eq_some (residency : Residency cfg) (c : Nat) (hzero : info 0 ≠ localStateRun cfg)
    (st : Stats) :
    ∃ st', countCpu P residency c info st = some st' ∧
      st'.lastCpuInNonCpuPd = st.lastCpuInNonCpuPd ∧ st'.psciNonCpuStat = st.psciNonCpuStat := by
  obtain ⟨idx, hidx, -⟩ := getStatIdx_eq_some 0 hzero
  rw [countCpu, hidx]
  exact ⟨_, rfl, rfl, rfl⟩

/-- A CPU comes up. Whatever the run, no assertion fails. The statistics stay exact unless the
domain just above the CPU is not marked and one further up is. -/
theorem StatInv.comeUp (h : StatInv T x) (residency : Residency cfg)
    (hstep : StepOk T x.state s' (.up c e info)) (hc : c < cfg.platformCoreCount)
    (he : e ≤ cfg.platMaxPwrLvl) (hzero : info 0 ≠ localStateRun cfg)
    (hinfo : ∀ i < e, info (i + 1) = x.state.localState (T.ancestor c i))
    (hout : ∀ n, n ∉ T.above c e → s'.localState n = x.state.localState n)
    (hrun' : ∀ i < e, s'.localState (T.ancestor c i) = localStateRun cfg) :
    ∃ stats, psciStatsUpdatePwrUp P residency T.toTree c e info x.stats = some stats ∧
      StatInv T (x.moved s' stats) ∧
      (StatExact P T x → (x.stats.lastCpuInNonCpuPd (T.cpuParent c) = none →
          ∀ i < e, x.stats.lastCpuInNonCpuPd (T.ancestor c i) = none) →
        StatExact P T (x.moved s' stats)) := by
  obtain ⟨st, hst, hstl, hsts⟩ :=
    countCpu_eq_some residency c hzero x.stats
  have hlt := lt_of_mem_above (T := T) hc he
  -- the domains above the CPU are in `RUN` afterwards
  have hup : ∀ n ∈ T.above c e, s'.localState n = localStateRun cfg := forall_above hrun'
  have hinv : ∀ {stats}, LeavesOthers T x s' c e stats → StatInv T (x.moved s' stats) :=
    fun hoth => h.moved hstep hoth
      (fun n hn hent => absurd (hup n hn) (enteredAfter_iff.mp hent).1) fun n hn => .inl (hup n hn)
  by_cases hfst : x.stats.lastCpuInNonCpuPd (T.cpuParent c) = none
  · have hoth : LeavesOthers T x s' c e st := fun n hn =>
      ⟨hout n hn, congrFun hstl n, congrFun hsts n⟩
    refine ⟨st, ?_, hinv hoth, fun hx hnone => ?_⟩
    · rw [psciStatsUpdatePwrUp, if_pos he, hst]
      exact if_pos (by rw [hstl]; exact hfst)
    have hno : ∀ n ∈ T.above c e, x.stats.lastCpuInNonCpuPd n = none := forall_above (hnone hfst)
    refine hx.moved h hoth (fun n hn hne => ?_) fun n hn idx => ?_
    · rw [hstl] at hne
      exact absurd (hno n hn) hne
    · -- nothing is left that had been entered
      rw [exitsAfter_of_not fun hent => h.marked n (hlt n hn) hent (hno n hn), hsts]
      exact hx.count n (hlt n hn) idx
  · -- the domain just above has been in `RUN`, hence all of them
    have hkn : ∀ n ∈ T.above c e, Known x.state x.entered n := forall_above fun i _ =>
      ancestor_induction hc h.up (h.known _ (T.ancestor_lt c hc 0 (by omega)) hfst) i (by omega)
    have hloc := info_level hc he hinfo
    obtain ⟨st', hst', hin, hrest⟩ := countExits_spec residency (level_above hc he) st
      (h.tree.runLast hc he hinfo) fun n hn hne => by
        rw [hstl]
        rw [hloc n hn] at hne
        exact h.marked n (hlt n hn) ((hkn n hn).entered hne)
    rw [hstl, hsts] at hrest
    have hsame := fun n (hrun : x.state.localState n = localStateRun cfg) =>
      hrest n fun hn => (hloc n hn).trans hrun
    have hoth : LeavesOthers T x s' c e st' := fun n hn =>
      ⟨hout n hn, hrest n fun h => absurd h hn⟩
    refine ⟨st', ?_, hinv hoth, fun hx _ => hx.moved h hoth (fun n hn hne => ?_)
      fun n hn idx => ?_⟩
    · rw [psciStatsUpdatePwrUp, if_pos he, hst, psciGetParentPwrDomainNodes_eq hc he]
      exact (if_neg (by rw [hstl]; exact hfst)).trans hst'
    · by_cases hrun : x.state.localState n = localStateRun cfg
      · rw [(hsame n hrun).1] at hne
        exact absurd hrun (h.low n (hx.last n (hlt n hn) hne))
      · rw [← hloc n hn] at hrun
        exact absurd (hin n hn hrun).1 hne
    · have hcnt := hx.count n (hlt n hn) idx
      by_cases hrun : x.state.localState n = localStateRun cfg
      · rw [exitsAfter_of_not fun hent => h.low n hent hrun, (hsame n hrun).2]
        exact hcnt
      · have hex : exitsAfter x.state s' x.entered x.exits n =
            x.state.localState n :: x.exits n :=
          if_pos ⟨(hkn n hn).entered hrun, isLocalStateRun_iff.mpr (hup n hn)⟩
        rw [hex, countP_cons, (hin n hn (by rwa [hloc n hn])).2 idx, countAfter, hsts, hcnt,
          hloc n hn]
        by_cases hidx : getStatIdx P (x.state.localState n) (T.nonCpu n).level = some idx
        · simp [hidx]
        · simp [hidx]

theorem step_up {t : Tree} {e : Event cfg} {k : Nat} (h : step t s e = some (s', .up c k info)) :
    e = .warmBoot c ∨ s.pos c ≠ .off := by
  cases e with
  | cpuOn =>
    rw [step, ite_none_right_eq_some] at h
    simp at h
  | warmBoot =>
    rw [step, ite_none_right_eq_some, psciWarmbootEntrypoint, ite_none_left_eq_some] at h
    obtain ⟨nodes, -, h⟩ := bind_eq_some_iff.mp h.2.2
    obtain ⟨s₁, -, h⟩ := bind_eq_some_iff.mp h
    cases h
    exact .inl rfl
  | cpuOff c' denied =>
    rw [step, ite_none_right_eq_some] at h
    obtain ⟨nodes, -, h⟩ := bind_eq_some_iff.mp h.2
    cases denied with
    | true => simp at h
    | false =>
      obtain ⟨r, -, h⟩ := bind_eq_some_iff.mp h
      simp at h
  | setOff =>
    rw [step, ite_none_right_eq_some] at h
    simp at h
  | cpuSuspend c' info' isPowerDownState pending =>
    rw [step, ite_none_right_eq_some, psciCpuSuspend, ite_none_right_eq_some] at h
    obtain ⟨-, -, h⟩ := h
    by_cases hstb : (!isPowerDownState) = true ∧ psciFindTargetSuspendLvl info' = 0
    · rw [if_pos hstb] at h
      simp at h
    · rw [if_neg hstb] at h
      obtain ⟨nodes, -, h⟩ := bind_eq_some_iff.mp h
      cases pending with
      | true => simp at h
      | false =>
        obtain ⟨r, -, h⟩ := bind_eq_some_iff.mp h
        simp at h
  | wakeUp c' =>
    obtain ⟨-, h⟩ := ite_none_right_eq_some.mp h
    generalize hpos : s.pos c' = v at h
    cases v with
    | retention =>
      obtain ⟨nodes, -, h⟩ := bind_eq_some_iff.mp h
      cases h
      exact .inr (by simp [hpos])
    | standby =>
      cases h
      exact .inr (by simp [hpos])
    | _ =>
      simp at h

/-- No CPU is turned on, for the first time in the domain just above it, while a domain
further up is marked as taken down. -/
def turnedOnAlone (t : Tree) (x : StatState cfg) (e : Event cfg × Residency cfg) : Prop :=
  match e.1 with
  | .warmBoot c => x.state.pos c = .off → x.stats.lastCpuInNonCpuPd (t.cpuParent c) = none →
      ∀ i < cfg.platMaxPwrLvl, x.stats.lastCpuInNonCpuPd (t.ancestor c i) = none
  | _ => True

instance (t : Tree) (x : StatState cfg) (e : Event cfg × Residency cfg) :
    Decidable (turnedOnAlone t x e) :=
  match e with
  | (.warmBoot _, _) => inferInstanceAs (Decidable (_ → _ → ∀ i < _, _))
  | (.cpuOn .., _) => isTrue trivial
  | (.cpuOff .., _) => isTrue trivial
  | (.setOff _, _) => isTrue trivial
  | (.cpuSuspend .., _) => isTrue trivial
  | (.wakeUp _, _) => isTrue trivial

/-- A CPU that has not been off knows the domain just above it: with that one not marked it
is in `RUN`, and so are the others. -/
theorem StatInv.unmarked (h : StatInv T x) (hx : StatExact P T x) (hc : c < cfg.platformCoreCount)
    (hpos : x.state.pos c ≠ .off) (hnone : x.stats.lastCpuInNonCpuPd (T.cpuParent c) = none) :
    ∀ i < cfg.platMaxPwrLvl, x.stats.lastCpuInNonCpuPd (T.ancestor c i) = none := by
  intro i hi
  have hlt := T.ancestor_lt c hc 0 (by omega)
  have h0 := (h.booted c hc hpos 0 (by omega)).resolve_right fun hent => h.marked _ hlt hent hnone
  have hrun := ancestor_induction hc (fun n => h.tree.parent_run) h0 i hi
  by_contra hne
  exact h.low _ (hx.last _ (T.ancestor_lt c hc i hi) hne) hrun

/-- **One step** of the system with its statistics. -/
theorem StatInv.step {x' : StatState cfg} {e : Event cfg × Residency cfg} (h : StatInv T x)
    (hstep : statStep P T.toTree x e = some x') :
    StatInv T x' ∧ (StatExact P T x → turnedOnAlone T.toTree x e → StatExact P T x') := by
  obtain ⟨⟨s', call⟩, hs', rfl⟩ := map_eq_some_iff.mp hstep
  have hok := h.tree.step hs'
  -- it is enough to find what the call leaves
  suffices hcall : ∃ stats, call.apply P e.2 T.toTree x.stats = some stats ∧
      StatInv T (x.moved s' stats) ∧
      (StatExact P T x → turnedOnAlone T.toTree x e → StatExact P T (x.moved s' stats)) by
    obtain ⟨stats, hsts, hinv⟩ := hcall
    simp only [hsts, h.passed]
    exact hinv
  cases hok.effect with
  | none hloc =>
    obtain ⟨hinv, hex⟩ := h.idle hok hloc
    exact ⟨x.stats, rfl, hinv, fun hx _ => hex hx⟩
  | down hc he hrun hout hinfo =>
    obtain ⟨stats, hsts, hinv, hex⟩ := h.down hok hc he hrun hout hinfo
    exact ⟨stats, hsts, hinv, fun hx _ => hex hx⟩
  | @up c k info hc he hzero hinfo hout hin =>
    obtain ⟨stats, hsts, hinv, hex⟩ :=
      h.comeUp e.2 hok hc he hzero hinfo hout hin
    refine ⟨stats, hsts, hinv, fun hx halo => hex hx fun hnone i hi => ?_⟩
    rcases step_up hs' with hboot | hpos
    · by_cases hpos : x.state.pos c = .off
      · rw [turnedOnAlone, hboot] at halo
        exact halo hpos hnone i (by omega)
      · exact h.unmarked hx hc hpos hnone i (by omega)
    · exact h.unmarked hx hc hpos hnone i (by omega)

/-! ### Runs -/

/-- The system that `psci_setup` leaves on the CPU `c`, which runs; all else is off. -/
def statBoot (t : Tree) (c : Nat) : StatState cfg where
  state := (psciSetPwrDomainsToRun c ((range cfg.platMaxPwrLvl).map (t.ancestor c))
    ⟨fun _ => maxOffState cfg, fun _ => ⟨.off, invalidPwrLvl cfg, maxOffState cfg⟩,
      fun _ _ => maxOffState cfg, fun _ => .off⟩).goto c .running
  stats := .zero
  assertFailed := false
  entered _ := false
  exits _ := []

theorem statBoot_inv (hc : c < cfg.platformCoreCount) :
    StatInv T (statBoot T.toTree c) ∧ StatExact P T (statBoot T.toTree c) := by
  have htree : TreeInv T (statBoot T.toTree c : StatState cfg).state :=
    treeInv_boot (fun _ _ => rfl) (fun _ _ => rfl) rfl (fun _ => rfl) hc
  have hfal : ∀ {n}, ¬ (statBoot T.toTree c : StatState cfg).entered n = true := by
    simp [statBoot]
  refine ⟨⟨htree, fun n hn => absurd hn hfal, fun n hn hlvl hkn => ?_,
    fun c' hc' hpos i hi => ?_, fun n _ hn => absurd hn hfal,
    fun n _ hn => absurd rfl hn, rfl⟩, ⟨fun n _ hn => absurd rfl hn, fun n _ idx => ?_,
    fun n state hst => by simp [statBoot] at hst⟩⟩
  · exact .inl (htree.parent_run hn hlvl (hkn.resolve_right hfal))
  · have hrun : (statBoot T.toTree c : StatState cfg).state.pos c' = .running := by
      simp only [statBoot, State.goto, psciSetPwrDomainsToRun_pos] at hpos ⊢
      obtain rfl | hne := eq_or_ne c' c
      · simp
      · simp [hne] at hpos
    exact .inl (htree.powerStatesOk.running c' hc' hrun i hi).2
  · simp [statBoot, Stats.zero]

theorem sum_countP (lvl : Nat) (states : List (LocalState cfg))
    (h : ∀ state ∈ states, state ≠ localStateRun cfg) :
    ∑ idx ∈ Finset.range P.platMaxPwrLvlStates,
      states.countP (fun state => getStatIdx P state lvl = some idx) = states.length := by
  induction states with
  | nil => simp
  | cons state states ih =>
    obtain ⟨idx, hidx, hlt⟩ := getStatIdx_eq_some (P := P) lvl (h state mem_cons_self)
    have hone : ∑ i ∈ Finset.range P.platMaxPwrLvlStates,
        (if (decide (getStatIdx P state lvl = some i)) = true then 1 else 0) = 1 := by
      simp [hidx, hlt]
    simp only [countP_cons, Finset.sum_add_distrib, length_cons]
    rw [ih fun state' h' => h state' (mem_cons_of_mem _ h'), hone]

/-- **The statistics are exact.** No assertion of `psci_stat.c` ever fails. In every run in
which no CPU is turned on, as the first in the domain just above it, while a domain further
up is taken down, the domains that are marked are those in a low-power state which they have
entered, and the counts of each domain add up to the number of low-power states it has
left, as far as an `u_register_t` can count. -/
theorem stats_exact (P : StatsConfig cfg) (T : PowerTree cfg) (c : Nat)
    (hc : c < cfg.platformCoreCount) (es : List (Event cfg × Residency cfg))
    (x : StatState cfg) (hrun : run (statStep P T.toTree) (statBoot T.toTree c) es = some x) :
    x.assertFailed = false ∧
      (Along (statStep P T.toTree) (turnedOnAlone T.toTree) (statBoot T.toTree c) es →
        ∀ n < T.numDomains, (x.stats.lastCpuInNonCpuPd n ≠ none ↔ x.entered n = true) ∧
          ((x.exits n).length < 2 ^ P.registerBits →
            ∑ idx ∈ Finset.range P.platMaxPwrLvlStates, (x.stats.psciNonCpuStat n idx).count =
              (x.exits n).length)) := by
  obtain ⟨hinv, hex⟩ := statBoot_inv hc
  have hinv' : StatInv T x :=
    run_invariant (fun x e x' h hstep => (StatInv.step h hstep).1) hinv hrun
  refine ⟨hinv'.passed, fun hal n hn => ?_⟩
  have hexact' : StatInv T x ∧ StatExact P T x :=
    run_invariant_along (fun x e x' (h : StatInv T x ∧ StatExact P T x) hok hstep =>
        ⟨(h.1.step hstep).1, (h.1.step hstep).2 h.2 hok⟩) ⟨hinv, hex⟩ hal hrun
  refine ⟨⟨hexact'.2.last n hn, hinv'.marked n hn⟩, fun hlt => ?_⟩
  rw [← sum_countP (T.nonCpu n).level (x.exits n) (hexact'.2.exits n)]
  refine Finset.sum_congr rfl fun idx _ => ?_
  rw [hexact'.2.count n hn idx]
  exact Nat.mod_eq_of_lt (countP_le_length.trans_lt hlt)

/-- Statistics with the default indices, in 64-bit registers. -/
def clustersStats : StatsConfig clustersConfig :=
  ⟨64, 2, none, by simp, fun _ => rfl⟩

/-- Events with a residency that is always 0. -/
def timeless (es : List (Event cfg)) : List (Event cfg × Residency cfg) :=
  es.map (·, fun _ _ _ => 0)

/-- CPU 2 is turned on, both CPUs suspend, and CPU 0 wakes up. -/
def systemSleep : List (Event clustersConfig) :=
  [.cpuOn 0 2 true, .warmBoot 2, .cpuSuspend 2 (fun _ => 2) true false,
    .cpuSuspend 0 (fun _ => 2) true false, .warmBoot 0]

theorem stats_exact_system_sleep :
    ∃ (T : PowerTree clustersConfig) (x : StatState clustersConfig),
      run (statStep clustersStats T.toTree) (statBoot T.toTree 0) (timeless systemSleep) =
        some x ∧
      (x.stats.lastCpuInNonCpuPd 0 ≠ none ↔ x.entered 0 = true) ∧
      (x.exits 0).length = 1 ∧
      ∑ idx ∈ Finset.range 2, (x.stats.psciNonCpuStat 0 idx).count = 1 := by
  obtain ⟨T, hnum, hal, x, hx, hlen⟩ := exists_clusters (q := fun t =>
    Along (statStep clustersStats t) (turnedOnAlone t) (statBoot t 0) (timeless systemSleep) ∧
    ∃ x, run (statStep clustersStats t) (statBoot t 0) (timeless systemSleep) = some x ∧
      (x.exits 0).length = 1) (by decide +kernel)
  obtain ⟨hlast, hcnt⟩ := (stats_exact clustersStats T 0 (by decide) _ x hx).2 hal 0 hnum
  exact ⟨T, x, hx, hlast, hlen, (hcnt (by rw [hlen]; decide)).trans hlen⟩

/-- CPU 0 turns on CPU 2, in the other cluster, and suspends the system before it boots. -/
def bootIntoSleep : List (Event clustersConfig) :=
  [.cpuOn 0 2 true, .cpuSuspend 0 (fun _ => 2) true false, .warmBoot 2]

/-- The cluster of CPU 2 has never been taken down, so its boot returns before it gets to the
system domain: this one is in `RUN` again, but still marked, and not counted. -/
theorem system_exit_not_counted :
    ∃ (T : PowerTree clustersConfig) (x : StatState clustersConfig),
      run (statStep clustersStats T.toTree) (statBoot T.toTree 0) (timeless bootIntoSleep) =
        some x ∧
      0 < T.numDomains ∧ x.state.localState 0 = localStateRun clustersConfig ∧
      x.stats.lastCpuInNonCpuPd 0 = some 0 ∧ x.entered 0 = false ∧ (x.exits 0).length = 1 ∧
      ∑ idx ∈ Finset.range 2, (x.stats.psciNonCpuStat 0 idx).count = 0 := by
  obtain ⟨T, hnum, x, hx, hend⟩ := exists_clusters (q := fun t =>
    ∃ x, run (statStep clustersStats t) (statBoot t 0) (timeless bootIntoSleep) = some x ∧
      x.state.localState 0 = localStateRun clustersConfig ∧
      x.stats.lastCpuInNonCpuPd 0 = some 0 ∧ x.entered 0 = false ∧ (x.exits 0).length = 1 ∧
      ∑ idx ∈ Finset.range 2, (x.stats.psciNonCpuStat 0 idx).count = 0) (by decide +kernel)
  exact ⟨T, x, hx, hnum, hend⟩

end TrustedFirmware.Psci.Domains
