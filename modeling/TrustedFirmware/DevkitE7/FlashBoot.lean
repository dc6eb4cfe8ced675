import TrustedFirmware.DevkitE7.Programming

/-!
# Boots that program the flash

The first part is about boots that do not get through: power is lost, or the code gives up waiting.
The next boot starts over, and what has been done before makes no difference to the flash in the
end.

The second part is `init_nor_flash`, which decides whether the boot goes on.
-/

namespace TrustedFirmware.DevkitE7.NorFlash

open Lib.NorCells List

/-! ### Starting over -/

/-- A boot: the header and the flash are as they were left. -/
def boot (env : Env) (mem : Word → Byte) (b : Board) : Board :=
  match ospiProgramFromMram env mem (staged b.hdr b.ospi.flash) with
  | .error b' => b'
  | .ok (b', _) => b'

/-- One boot after the other. -/
def boots (mem : Word → Byte) (b : Board) (envs : List Env) : Board :=
  envs.foldl (fun b env => boot env mem b) b

/-- Power stays, and all of these operations are answered in time. -/
structure Env.Uncut (env : Env) (ops : List FlashOp) : Prop where
  power : env.powerLoss = none
  answered : (pollsAnswered env.statusReg 0 ops).isSome = true

/-- All of these operations have been done in the last boot, and none has timed out. -/
structure Completed (b : Board) (ops : List FlashOp) : Prop where
  log : b.ospi.log = ops
  timeouts : b.ospi.timeouts = 0

variable {mem : Word → Byte}

theorem applyAll_restart (hdr : OspiProgHdr) (k : Nat) (flash : Content) :
    applyAll (hdr.operations mem) (applyAll ((hdr.operations mem).take k) flash) =
      applyAll (hdr.operations mem) flash := by
  funext a
  simp only [applyAll, OspiProgHdr.operations, map_take, map_append]
  refine cell_restart ?_ ?_ k (flash a)
  · intro x hx
    rw [eraseOps_eq, map_map] at hx
    obtain ⟨i, -, rfl⟩ := mem_map.mp hx
    rw [Function.comp_apply, FlashOp.act]
    split
    · exact .inr rfl
    · exact .inl rfl
  · intro x hx
    rw [programOps_eq _ _ _ _ _ le_rfl, map_map] at hx
    obtain ⟨i, -, rfl⟩ := mem_map.mp hx
    rw [Function.comp_apply, pageOp, FlashOp.act]
    split
    · split
      · exact .inr ⟨_, rfl⟩
      · exact .inl rfl
    · exact .inl rfl

/-- Where the boots after `b` can have got to: the request is still there, and the flash has part of
it; or it has been carried out. -/
inductive Stage (mem : Word → Byte) (b : Board) : Board → Prop
  | waiting {b' : Board} (hhdr : b'.hdr = b.hdr)
      (hflash : applyAll (b.hdr.operations mem) b'.ospi.flash =
        applyAll (b.hdr.operations mem) b.ospi.flash)
      (hidle : b.hdr.magic ≠ ospiProgMagic → b'.ospi.flash = b.ospi.flash) : Stage mem b b'
  | done {b' : Board} (hmagic : b.hdr.magic = ospiProgMagic)
      (hhdr : b'.hdr = { b.hdr with magic := 0 })
      (hflash : b'.ospi.flash = applyAll (b.hdr.operations mem) b.ospi.flash) : Stage mem b b'

theorem Stage.refl (b : Board) : Stage mem b b := .waiting rfl rfl fun _ => rfl

theorem zero_ne_ospiProgMagic : (0 : Word) ≠ ospiProgMagic := by decide

variable {env : Env} {b b' : Board}

/-- After the request has been carried out, a boot leaves the flash alone. -/
theorem boot_of_done (hmagic : b.hdr.magic ≠ ospiProgMagic) :
    boot env mem b = staged b.hdr b.ospi.flash := by
  rw [boot, ospiProgramFromMram,
    if_pos (show (staged b.hdr b.ospi.flash).hdr.magic ≠ ospiProgMagic from hmagic)]

theorem boot_stage (h : Stage mem b b') : Stage mem b (boot env mem b') := by
  cases h with
  | done hmagic hhdr hflash =>
    have hzero : b'.hdr.magic ≠ ospiProgMagic := by
      rw [hhdr]
      exact zero_ne_ospiProgMagic
    rw [boot_of_done hzero]
    exact .done hmagic hhdr hflash
  | waiting hhdr hflash hidle =>
    have hends := ospiProgramFromMram_ends env mem (staged b'.hdr b'.ospi.flash)
    have hops : (staged b'.hdr b'.ospi.flash).hdr.operations mem = b.hdr.operations mem := by
      rw [staged, hhdr]
    rw [boot]
    generalize ospiProgramFromMram env mem (staged b'.hdr b'.ospi.flash) = r at hends
    -- A part of the request has been done, and the header is the same.
    have hpart : ∀ {b'' : Board} {k : Nat},
        (staged b'.hdr b'.ospi.flash).hdr.magic = ospiProgMagic →
        b''.hdr = (staged b'.hdr b'.ospi.flash).hdr →
        Performs (staged b'.hdr b'.ospi.flash).ospi b''.ospi
          (((staged b'.hdr b'.ospi.flash).hdr.operations mem).take k) → Stage mem b b'' := by
      intro b'' k hmagic hhdr' hperf
      rw [hops] at hperf
      refine .waiting (hhdr'.trans hhdr) ?_ fun hne => ?_
      · rw [hperf.flash, applyAll_restart]
        exact hflash
      · rw [staged, hhdr] at hmagic
        exact absurd hmagic hne
    cases hends with
    | notRequested => exact .waiting hhdr hflash hidle
    | complete hmagic hhdr' hperf =>
      rw [hops] at hperf
      have hset : b.hdr.magic = ospiProgMagic := by
        rw [← hhdr]
        exact hmagic
      refine .done hset ?_ (hperf.flash.trans hflash)
      rw [hhdr', ← hhdr, staged]
    | timedOut hmagic hhdr' hperf | lost hmagic hhdr' _ hperf => exact hpart hmagic hhdr' hperf

theorem boots_stage : ∀ (envs : List Env) {b' : Board}, Stage mem b b' →
    Stage mem b (boots mem b' envs)
  | [], _, h => h
  | _ :: envs, _, h => boots_stage envs (boot_stage h)

/-- The flash after a boot that is not cut, whatever happened in the boots before. -/
theorem boot_uncut (h : Stage mem b b') (hunc : env.Uncut (b.hdr.operations mem)) :
    (boot env mem b').ospi.flash =
      if b.hdr.magic = ospiProgMagic then applyAll (b.hdr.operations mem) b.ospi.flash
      else b.ospi.flash := by
  cases h with
  | done hmagic hhdr hflash =>
    have hzero : b'.hdr.magic ≠ ospiProgMagic := by
      rw [hhdr]
      exact zero_ne_ospiProgMagic
    rw [boot_of_done hzero, if_pos hmagic]
    exact hflash
  | waiting hhdr hflash hidle =>
    split_ifs with hmagic
    · rw [boot]
      have hends := ospiProgramFromMram_ends env mem (staged b'.hdr b'.ospi.flash)
      generalize ospiProgramFromMram env mem (staged b'.hdr b'.ospi.flash) = r at hends
      rw [← hhdr] at hmagic hflash hunc
      cases hends with
      | notRequested hne => exact absurd hmagic hne
      | complete _ _ hperf => exact hperf.flash.trans (hhdr ▸ hflash)
      | timedOut _ _ _ hpol =>
        have hans := hunc.answered
        rw [show pollsAnswered env.statusReg 0 (b'.hdr.operations mem) = none from hpol]
          at hans
        cases hans
      | lost _ _ hloss =>
        simp [hunc.power] at hloss
    · rw [boot_of_done (by rwa [hhdr])]
      exact hidle hmagic

/-- The magic word becomes zero in a boot that does everything. -/
theorem completed_of_cleared (h : Stage mem b b') (hbef : b'.hdr.magic ≠ 0)
    (hclr : (boot env mem b').hdr.magic = 0) :
    Completed (boot env mem b') (b.hdr.operations mem) := by
  cases h with
  | done _ hhdr =>
    rw [hhdr] at hbef
    exact absurd rfl hbef
  | waiting hhdr =>
    have hends := ospiProgramFromMram_ends env mem (staged b'.hdr b'.ospi.flash)
    rw [boot] at hclr ⊢
    generalize ospiProgramFromMram env mem (staged b'.hdr b'.ospi.flash) = r at hends hclr
    cases hends with
    | notRequested => exact absurd hclr hbef
    | complete _ _ hperf _ htime =>
      rw [← hhdr]
      exact ⟨hperf.log.trans (nil_append _), htime⟩
    | timedOut _ hhdr' | lost _ hhdr' =>
      rw [hhdr'] at hclr
      exact absurd hclr hbef

/-- If the magic word is zero after some boots then it was zero before, or one of the boots has done
everything. -/
theorem exists_completed : ∀ (envs : List Env) {b' : Board}, Stage mem b b' →
    (boots mem b' envs).hdr.magic = 0 → b'.hdr.magic = 0 ∨
      ∃ before env after, envs = before ++ env :: after ∧
        Completed (boots mem b' (before ++ [env])) (b.hdr.operations mem)
  | [], _, _, hzero => Or.inl hzero
  | env :: envs, b', h, hzero => by
    by_cases hbef : b'.hdr.magic = 0
    · exact Or.inl hbef
    refine Or.inr ?_
    rcases exists_completed envs (boot_stage h) hzero with hclr | ⟨before, env', after, rfl, hc⟩
    · exact ⟨[], env, envs, rfl, completed_of_cleared h hbef hclr⟩
    · exact ⟨env :: before, env', after, rfl, hc⟩

/-- **Interrupted boots.** However many boots have been cut, and wherever, a boot that is not cut
leaves the flash as a single such boot would have left it in the first place. The magic word is only
cleared by a boot that has done every operation without a timeout. -/
theorem interrupted_boots_converge {b : Board} {last single : Env}
    (hlast : last.Uncut (b.hdr.operations mem)) (hsingle : single.Uncut (b.hdr.operations mem))
    (envs : List Env) :
    (boot last mem (boots mem b envs)).ospi.flash = (boot single mem b).ospi.flash ∧
      ((boots mem b envs).hdr.magic = 0 → b.hdr.magic = 0 ∨
        ∃ before env after, envs = before ++ env :: after ∧
          Completed (boots mem b (before ++ [env])) (b.hdr.operations mem)) := by
  have hsta : Stage mem b (boots mem b envs) := boots_stage envs (Stage.refl b)
  refine ⟨?_, exists_completed envs (Stage.refl b)⟩
  rw [boot_uncut hsta hlast, boot_uncut (Stage.refl b) hsingle]

/-- Power is lost after two operations, then the flash is never ready, and then the boot gets
through. -/
theorem interrupted_boots_converge_two :
    (boot readyEnv (fun a => a.setWidth 8) (boots (fun a => a.setWidth 8)
      (staged twoPages fun _ => 0) [⟨fun _ => 0, some 2⟩, ⟨fun _ => 1, none⟩])).ospi.flash =
    (boot readyEnv (fun a => a.setWidth 8) (staged twoPages fun _ => 0)).ospi.flash := by
  have hrdy : readyEnv.Uncut (twoPages.operations fun a => a.setWidth 8) :=
    ⟨rfl, pollsAnswered_ready _ _⟩
  have hboth := interrupted_boots_converge (b := staged twoPages fun _ => 0) hrdy hrdy
    [⟨fun _ => 0, some 2⟩, ⟨fun _ => 1, none⟩]
  exact hboth.1

/-! ### `init_nor_flash` -/

/-- The configuration of the build, whether the key has been written to the AES block, and the bytes
that the flash sends for its device id in each probe. -/
structure Setup where
  aesEn : Bool
  aesKeyWritten : Bool
  idBytes : Nat → Nat → Byte

/-- `issi_decode_id`: one bit of the id in each byte. -/
def issiDecodeId (buffer : Nat → Byte) : Byte :=
  (range 8).foldl (fun id iter =>
    let id := if buffer iter &&& 0x2 ≠ 0 then id ||| 1 else id
    if iter < 7 then id <<< 1 else id) 0

/-- `DEVICE_ID_ISSI_FLASH_IS25WX256`. -/
def deviceIdIssiFlashIs25wx256 : Byte := 0x9D

/-- The return value of `setup_flash_xip`, for the probe number `i`. -/
def setupFlashXip (setup : Setup) (i : Nat) : Int :=
  if issiDecodeId (setup.idBytes i) = deviceIdIssiFlashIs25wx256 then 0 else -1

/-- `init_nor_flash`. -/
def initNorFlash (setup : Setup) (env : Env) (mem : Word → Byte) (b : Board) :
    Except Board (Board × Int) :=
  if setup.aesEn = true ∧ setup.aesKeyWritten = false then .ok (b, -1)
  else if setupFlashXip setup 0 ≠ 0 then .ok (b, -1)
  else
    match ospiProgramFromMram env mem b with
    | .error b' => .error b'
    | .ok (b', programmed) =>
      if programmed ≠ 0 then
        if setupFlashXip setup 1 ≠ 0 then .ok (b', -1) else .ok (b', 0)
      else .ok (b', 0)

/-- The key is written where there is one, and the flash is found both times. -/
structure Setup.Succeeds (setup : Setup) : Prop where
  key : ¬ (setup.aesEn = true ∧ setup.aesKeyWritten = false)
  first : setupFlashXip setup 0 = 0
  second : setupFlashXip setup 1 = 0

/-- What `init_nor_flash` should tell its caller: 0 only if nothing was asked for or all of it has
been done, and not 0 if an operation has timed out. -/
structure Reported (hdr : OspiProgHdr) (mem : Word → Byte) (b' : Board) (rc : Int) : Prop where
  completed : rc = 0 → hdr.magic ≠ ospiProgMagic ∨ Completed b' (hdr.operations mem)
  timeout : 0 < b'.ospi.timeouts → rc ≠ 0

/-- **A failure to program the flash is reported** exactly where it cannot happen or something else
fails: nothing is asked for, or all operations are answered in time, or the key is not written or
the flash is not found. -/
theorem init_nor_flash_reports_iff {setup : Setup} {env : Env} {hdr : OspiProgHdr} {flash : Content}
    {b' : Board} {rc : Int} (hrun : initNorFlash setup env mem (staged hdr flash) = .ok (b', rc)) :
    Reported hdr mem b' rc ↔ hdr.magic ≠ ospiProgMagic ∨
      (pollsAnswered env.statusReg 0 (hdr.operations mem)).isSome = true ∨ ¬ setup.Succeeds := by
  have hends := ospiProgramFromMram_ends env mem (staged hdr flash)
  rw [initNorFlash] at hrun
  -- A failure before the programming is reported.
  have hear : (b', rc) = (staged hdr flash, -1) → Reported hdr mem b' rc := by
    intro heq
    cases heq
    exact ⟨fun h => absurd h (by decide), fun h => absurd h (lt_irrefl 0)⟩
  split at hrun
  · rename_i hkey
    exact iff_of_true (hear (Except.ok.inj hrun).symm) (.inr (.inr fun h => h.key hkey))
  rename_i hkey
  by_cases hfst : setupFlashXip setup 0 = 0
  case neg =>
    rw [if_pos hfst] at hrun
    exact iff_of_true (hear (Except.ok.inj hrun).symm) (.inr (.inr fun h => hfst h.first))
  rw [if_neg (not_not.mpr hfst)] at hrun
  generalize ospiProgramFromMram env mem (staged hdr flash) = r at hends hrun
  cases hends with
  | notRequested hmagic =>
    cases hrun
    exact iff_of_true ⟨fun _ => .inl hmagic, fun h => absurd h (lt_irrefl 0)⟩ (.inl hmagic)
  | lost => cases hrun
  | @complete b'' hmagic hhdr hperf hpol htim =>
    simp only [ne_eq, one_ne_zero, not_false_eq_true, if_true] at hrun
    have hb : b'' = b' := by
      split at hrun <;> exact (Prod.mk.inj (Except.ok.inj hrun)).1
    subst hb
    have hlog := hperf.log.trans (nil_append _)
    refine iff_of_true ⟨fun _ => .inr ⟨hlog, htim⟩, fun h => ?_⟩ (.inr (.inl hpol))
    rw [htim] at h
    exact absurd h (lt_irrefl 0)
  | @timedOut b'' k hmagic hhdr hperf hpol htim =>
    simp only [ne_eq, one_ne_zero, not_false_eq_true, if_true] at hrun
    have htime : 0 < b''.ospi.timeouts := by
      rw [htim]
      exact Nat.succ_pos _
    by_cases hsnd : setupFlashXip setup 1 = 0
    · rw [if_neg (not_not.mpr hsnd)] at hrun
      cases hrun
      refine iff_of_false (fun h => h.timeout htime rfl) ?_
      rintro (hne | hsome | hfail)
      · exact hne hmagic
      · rw [show pollsAnswered env.statusReg 0 (hdr.operations mem) = none from hpol] at hsome
        cases hsome
      · exact hfail ⟨hkey, hfst, hsnd⟩
    · rw [if_pos hsnd] at hrun
      cases hrun
      exact iff_of_true ⟨fun h => absurd h (by decide), fun _ => by decide⟩
        (.inr (.inr fun h => hsnd h.second))

/-- The flash is found both times, and there is no key. -/
def plainSetup : Setup :=
  ⟨false, false, fun _ i => if (0x9D : Byte).getMsbD i then 0x2 else 0⟩

theorem plainSetup_succeeds : plainSetup.Succeeds := ⟨by decide, by decide, by decide⟩

/-- What `init_nor_flash` returns once the programming has been tried. -/
theorem initNorFlash_of_programmed {setup : Setup} (h : setup.Succeeds)
    (hrun : ospiProgramFromMram env mem b = .ok (b', 1)) :
    initNorFlash setup env mem b = .ok (b', 0) := by
  rw [initNorFlash, if_neg h.key, if_neg (not_not.mpr h.first), hrun]
  simp [h.second]

/-- Two pages are programmed, and this is reported as a success. -/
theorem init_nor_flash_reports_two_pages : ∃ b', initNorFlash plainSetup readyEnv
      (fun a => a.setWidth 8) (staged twoPages fun _ => 0) = .ok (b', 0) ∧
    Reported twoPages (fun a => a.setWidth 8) b' 0 := by
  obtain ⟨b', hprog, -⟩ : ∃ b' : Board,
      ospiProgramFromMram readyEnv (fun a => a.setWidth 8) (staged twoPages fun _ => 0) =
        .ok (b', 1) ∧ b'.hdr.magic = 0 := readyEnv_clears rfl
  have hrun := initNorFlash_of_programmed plainSetup_succeeds hprog
  exact ⟨b', hrun, (init_nor_flash_reports_iff hrun).mpr (.inr (.inl (pollsAnswered_ready _ _)))⟩

/-- The flash is never ready. -/
def busyEnv : Env := ⟨fun _ => 1, none⟩

theorem pollsUntilReady_busy : ∀ timeout polls : Nat,
    pollsUntilReady busyEnv.statusReg polls timeout = none
  | 0, _ => rfl
  | timeout + 1, polls => by
    have hbusy : (1 : Byte) &&& 0x01 ≠ 0 := by decide
    rw [pollsUntilReady, if_neg (show ¬ busyEnv.statusReg polls &&& 0x01 = 0 from hbusy)]
    exact pollsUntilReady_busy timeout (polls + 1)

/-- The first erase times out, and `init_nor_flash` returns 0 all the same. -/
theorem timeout_reported_as_success : ∃ b', initNorFlash plainSetup busyEnv (fun _ => 0)
      (staged twoPages fun _ => 0) = .ok (b', 0) ∧ 0 < b'.ospi.timeouts ∧
    b'.hdr.magic = ospiProgMagic := by
  have hends := ospiProgramFromMram_ends busyEnv (fun _ => 0) (staged twoPages fun _ => 0)
  have hnone : pollsAnswered busyEnv.statusReg (staged twoPages fun _ => 0).ospi.polls
      ((staged twoPages fun _ => 0).hdr.operations fun _ => 0) = none := by
    show pollsAnswered busyEnv.statusReg 0 (twoPages.operations fun _ => 0) = none
    have hsec : twoPages.sectors.toNat = 0 + 1 := by decide
    rw [OspiProgHdr.operations, hsec, eraseOps, cons_append, pollsAnswered, pollsUntilReady_busy]
    rfl
  cases hrun : ospiProgramFromMram busyEnv (fun _ => 0) (staged twoPages fun _ => 0) with
  | error =>
    rw [hrun] at hends
    cases hends with
    | lost _ _ hloss _ => simp [busyEnv] at hloss
  | ok r =>
    rw [hrun] at hends
    cases hends with
    | notRequested hmagic => exact absurd rfl hmagic
    | complete _ _ _ hpol _ =>
      rw [hnone] at hpol
      cases hpol
    | @timedOut b' k hmagic hhdr _ _ htime =>
      refine ⟨b', initNorFlash_of_programmed plainSetup_succeeds hrun, ?_, ?_⟩
      · rw [htime]
        exact Nat.succ_pos _
      · rw [hhdr]
        exact hmagic

end TrustedFirmware.DevkitE7.NorFlash
