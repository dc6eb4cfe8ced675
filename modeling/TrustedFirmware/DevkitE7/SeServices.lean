import TrustedFirmware.Lib.Run

/-!
# Requests to the secure enclave over the MHU (`services.c`)

The enclave presents the status registers after each request, and what is in the payload whenever it
is read; a call that has not returned when they end goes on with more. A wait for the lock or for
the channel decides only whether the call goes on.

`service_se_sync` does not take the acknowledgement of its last heartbeat for one, the key is
turned around again by every request that writes it, and no response is looked at.
-/

namespace TrustedFirmware.DevkitE7.SeServices

open Lib List Option Function

abbrev U32 := BitVec 32

/-! ### The MHU -/

/-- `service_header_t` -/
structure ServiceHeader where
  serviceId : BitVec 16
  flags : BitVec 16
  errorCode : BitVec 16
  padding : BitVec 16
  deriving DecidableEq

/-- The run profile. -/
structure RunProfile where
  powerDomains : U32
  dcdcVoltage : U32
  dcdcMode : U32
  aonClkSrc : U32
  runClkSrc : U32
  cpuClkFreq : U32
  scaledClkFreq : U32
  memoryBlocks : U32
  ipClockGating : U32
  phyPwrGating : U32
  vddIoflex3V3 : U32
  deriving DecidableEq

/-- `aipm_get_run_profile_svc_t` and `aipm_set_run_profile_svc_t` -/
structure RunProfileSvc where
  header : ServiceHeader
  profile : RunProfile
  respErrorCode : U32
  deriving DecidableEq

/-- What is in the payload when a message is sent. -/
inductive Request
  | heartbeat
  | ospiWriteKey (sendKey : List UInt8)
  | getRun
  | setRun (svc : RunProfileSvc)
  deriving DecidableEq

/-- The status registers after a request. -/
structure Status where
  intSt0 : U32
  intSt : U32
  chSt : U32

def chId : Nat := 0

/-- Both interrupt status bits are set and the channel status is clear. -/
def Status.acknowledged (r : Status) : Bool :=
  r.intSt0.getLsbD chId && r.intSt.getLsbD chId && r.chSt = 0

/-- The status and the responses to come, the requests sent, the last one first, the key, and
how often the lock has been taken and released. -/
structure Se where
  status : List Status
  responses : List RunProfileSvc
  sent : List Request
  aesEncKey : Nat → UInt8
  taken : Nat
  released : Nat

/-- The status has been read, requests sent, and the lock taken and released. -/
def Se.after (s : Se) (status : List Status) (new : List Request) (taken released : Nat) : Se :=
  { s with
    status
    sent := new ++ s.sent
    taken := s.taken + taken
    released := s.released + released }

/-- `mhu_secure_message_start`, which waits for the lock. -/
def mhuSecureMessageStart (s : Se) : Option Se :=
  if s.taken ≠ s.released then none else some (s.after s.status [] 1 0)

/-- `mhu_secure_message_send`, the delay, and whether the request has been acknowledged. -/
def mhuSecureMessageSend (r : Request) (s : Se) : Option (Bool × Se) :=
  match s.status with
  | [] => none
  | now :: status => some (now.acknowledged, s.after status [r] 0 0)

/-- `mhu_secure_message_end` -/
def mhuSecureMessageEnd (s : Se) : Se := s.after s.status [] 0 1

/-! ### The services -/

def maxTries : Nat := 100

/-- The loop of `service_se_sync`, with so many tries left, and the number of iterations. -/
def syncLoop : Nat → Se → Option (Nat × Se)
  | 0, s => some (maxTries + 1, s)
  | left + 1, s => do
    let (ack, s) ← mhuSecureMessageSend .heartbeat s
    if ack then return (maxTries - left, s)
    syncLoop left s

/-- `service_se_sync` -/
def serviceSeSync (s : Se) : Option (Int × Se) := do
  let s ← mhuSecureMessageStart s
  let (iteration, s) ← syncLoop maxTries s
  if maxTries ≤ iteration then return (-1, mhuSecureMessageEnd s)
  return (0, s)

def aesEncKeyLen : Nat := 16

/-- A round of the loop that turns the key around. -/
def swapBytes (key : Nat → UInt8) (i : Nat) : Nat → UInt8 :=
  let temp := key i
  let key := update key i (key (aesEncKeyLen - i - 1))
  update key (aesEncKeyLen - i - 1) temp

def keyBytes (key : Nat → UInt8) : List UInt8 := (range aesEncKeyLen).map key

/-- `service_ospi_write_aes_key` -/
def serviceOspiWriteAesKey (s : Se) : Option (Int × Se) := do
  let (ret, s) ← serviceSeSync s
  if ret ≠ 0 then return (-1, s)
  let key := (range (aesEncKeyLen / 2)).foldl swapBytes s.aesEncKey
  let (ack, s) ← mhuSecureMessageSend (.ospiWriteKey (keyBytes key)) { s with aesEncKey := key }
  return (if ack then 0 else -1, mhuSecureMessageEnd s)

def servicePowerSetRunReqId : BitVec 16 := 311

def usbPhyMask : U32 := 2

/-- The request that sets the profile, made of the response with the present one. -/
def setRequest (saved : RunProfileSvc) : RunProfileSvc :=
  let gating := saved.profile.phyPwrGating ||| usbPhyMask
  { saved with
    header := ⟨servicePowerSetRunReqId, 0, 0, 0⟩
    profile := { saved.profile with phyPwrGating := gating } }

/-- `service_enable_usb_phy`, up to where it powers the PHY. -/
def serviceEnableUsbPhy (s : Se) : Option (Int × Se) := do
  let (ret, s) ← serviceSeSync s
  if ret ≠ 0 then return (-1, s)
  let (ack, s) ← mhuSecureMessageSend .getRun s
  if !ack then return (-1, mhuSecureMessageEnd s)
  let saved ← s.responses.head?
  let s := mhuSecureMessageEnd { s with responses := s.responses.tail }
  let (ret, s) ← serviceSeSync s
  if ret ≠ 0 then return (-1, s)
  let (ack, s) ← mhuSecureMessageSend (.setRun (setRequest saved)) s
  return (if ack then 0 else -1, mhuSecureMessageEnd s)

/-! ### What the calls do -/

/-- What is left of the status once one of the next `n` requests has been acknowledged. -/
def ackedIn : Nat → List Status → Option (List Status)
  | n + 1, now :: status => if now.acknowledged then some status else ackedIn n status
  | _, _ => none

variable {r : Request} {s s' : Se} {ret : Int} {α : Type} {out : α}

/-- A request, and what follows with whether it was acknowledged. -/
theorem send_bind_eq_some {f : Bool × Se → Option α}
    (h : (mhuSecureMessageSend r s).bind f = some out) :
    ∃ now status, s.status = now :: status ∧
      f (now.acknowledged, s.after status [r] 0 0) = some out := by
  unfold mhuSecureMessageSend at h
  split at h
  · cases h
  · exact ⟨_, _, by assumption, h⟩

theorem syncLoop_ne_none {left : Nat} (h : left ≤ s.status.length) : syncLoop left s ≠ none := by
  induction left generalizing s with
  | zero => nofun
  | succ left ih =>
    obtain ⟨now, status, hst⟩ := exists_cons_of_length_pos (Nat.zero_lt_of_lt h)
    rw [hst] at h
    have hrest := @ih (s.after status [.heartbeat] 0 0) (Nat.le_of_succ_le_succ h)
    rw [syncLoop, mhuSecureMessageSend, hst]
    cases hack : now.acknowledged with
    | true => simp [hack]
    | false => simpa [hack] using hrest

/-- `n` heartbeats are sent, all of them unless one before the last is acknowledged. -/
theorem syncLoop_eq_some {left iteration : Nat} (hleft : left ≤ maxTries)
    (h : syncLoop left s = some (iteration, s')) :
    ∃ n ≤ left, s' = s.after (s.status.drop n) (replicate n .heartbeat) 0 0 ∧
      if iteration < maxTries then
        ackedIn (left - 1) s.status = some (s.status.drop n) ∧ ackedIn n s.status ≠ none
      else n = left ∧ ackedIn (left - 1) s.status = none := by
  induction left generalizing s with
  | zero =>
    cases h
    exact ⟨0, le_rfl, rfl, rfl, rfl⟩
  | succ left ih =>
    obtain ⟨now, status, hst, h⟩ := send_bind_eq_some h
    rw [hst]
    cases hack : now.acknowledged with
    | true =>
      rw [hack] at h
      cases h
      refine ⟨1, by omega, rfl, ?_⟩
      cases left with
      | zero => exact ⟨rfl, rfl⟩
      | succ left =>
        rw [if_pos (by omega)]
        simp [ackedIn, hack]
    | false =>
      rw [hack] at h
      obtain ⟨n, hn, rfl, hcas⟩ := ih (by omega) h
      refine ⟨n + 1, by omega, by simp [Se.after, replicate_succ'], ?_⟩
      cases left with
      | zero =>
        split_ifs at hcas ⊢
        · cases hcas.1
        · exact ⟨congrArg (· + 1) hcas.1, rfl⟩
      | succ left => simpa [ackedIn, hack, Se.after] using hcas

/-- **Synchronisation** succeeds, with the lock held, if a heartbeat before the last one is
acknowledged. -/
theorem serviceSeSync_eq_some (h : serviceSeSync s = some (ret, s')) :
    s.taken = s.released ∧ ∃ n ≤ maxTries,
    ((ret = 0 ∧ s' = s.after (s.status.drop n) (replicate n .heartbeat) 1 0 ∧
        ackedIn 99 s.status = some (s.status.drop n) ∧ ackedIn n s.status ≠ none) ∨
      (ret = -1 ∧ s' = s.after (s.status.drop n) (replicate n .heartbeat) 1 1 ∧
        ackedIn 99 s.status = none ∧ n = maxTries)) := by
  obtain ⟨s₁, hstart, h⟩ := bind_eq_some_iff.mp h
  obtain ⟨⟨iteration, s₂⟩, hloop, h⟩ := bind_eq_some_iff.mp h
  unfold mhuSecureMessageStart at hstart
  split_ifs at hstart with hlock
  cases hstart
  obtain ⟨n, hn, rfl, hcas⟩ := syncLoop_eq_some le_rfl hloop
  refine ⟨not_not.mp hlock, n, hn, ?_⟩
  dsimp only at h
  split_ifs at h with hlast
  · rw [if_neg (by omega)] at hcas
    cases h
    exact .inr ⟨rfl, rfl, hcas.2, hcas.1⟩
  · rw [if_pos (by omega)] at hcas
    cases h
    exact .inl ⟨rfl, rfl, hcas⟩

/-- A service fails to synchronise, or it goes on with the lock. -/
theorem sync_bind_eq_some {f : Int × Se → Option α}
    (h : (serviceSeSync s).bind f = some out) :
    s.taken = s.released ∧ ∃ n, (ackedIn 99 s.status = none ∧
        f (-1, s.after (s.status.drop maxTries) (replicate n .heartbeat) 1 1) = some out) ∨
      ∃ status, ackedIn 99 s.status = some status ∧
        f (0, s.after status (replicate n .heartbeat) 1 0) = some out := by
  obtain ⟨⟨ret, s₁⟩, hsync, h⟩ := bind_eq_some_iff.mp h
  obtain ⟨hlock, n, -, ⟨rfl, rfl, hst, -⟩ | ⟨rfl, rfl, hst, rfl⟩⟩ := serviceSeSync_eq_some hsync
  · exact ⟨hlock, n, .inr ⟨_, hst, h⟩⟩
  · exact ⟨hlock, maxTries, .inl ⟨hst, h⟩⟩

/-- The keys that have been sent, the last one first. -/
def Se.keys (s : Se) : List (List UInt8) :=
  s.sent.filterMap fun
    | .ospiWriteKey key => some key
    | _ => none

theorem keys_after (s : Se) (status : List Status) (n taken released : Nat) :
    (s.after status (replicate n .heartbeat) taken released).keys = s.keys := by
  simp [Se.keys, Se.after, filterMap_append]

theorem serviceOspiWriteAesKey_eq_some (h : serviceOspiWriteAesKey s = some (ret, s')) :
    s.taken = s.released ∧ s'.taken = s'.released ∧
    ((ackedIn 99 s.status = none ∧ s'.status = s.status.drop maxTries ∧
        s'.aesEncKey = s.aesEncKey ∧ s'.keys = s.keys) ∨
      ∃ status, ackedIn 99 s.status = some status ∧ s'.status = status.tail ∧
        s'.aesEncKey = (range (aesEncKeyLen / 2)).foldl swapBytes s.aesEncKey ∧
        s'.keys = keyBytes s'.aesEncKey :: s.keys) := by
  obtain ⟨hlock, n, ⟨hst, h⟩ | ⟨status, hst, h⟩⟩ := sync_bind_eq_some h
  · cases h
    exact ⟨hlock, congrArg (· + 1) hlock, .inl ⟨hst, rfl, rfl, keys_after ..⟩⟩
  · obtain ⟨now, status', rfl, h⟩ := send_bind_eq_some h
    cases h
    exact ⟨hlock, congrArg (· + 1) hlock,
      .inr ⟨_, hst, rfl, rfl, congrArg (_ :: ·) (keys_after s (now :: status') n 0 0)⟩⟩

/-- The status before the answer to SET_RUN, if the call gets that far: the heartbeats and GET_RUN
are acknowledged, and the heartbeats again. -/
def setRunStatus (status : List Status) : Option (List Status) := do
  let status ← ackedIn 99 status
  let status ← ackedIn 1 status
  ackedIn 99 status

theorem serviceEnableUsbPhy_eq_some (h : serviceEnableUsbPhy s = some (ret, s')) :
    s.taken = s.released ∧ s'.taken = s'.released ∧ ∃ new, s'.sent = new ++ s.sent ∧
    ((ret = -1 ∧ setRunStatus s.status = none ∧ ∀ svc, .setRun svc ∉ new) ∨
      ∃ saved status, s.responses.head? = some saved ∧ setRunStatus s.status = some status ∧
        (ret = 0 ↔ ackedIn 1 status ≠ none) ∧
        ∀ svc, .setRun svc ∈ new ↔ svc = setRequest saved) := by
  obtain ⟨hlock, n, ⟨hst, h⟩ | ⟨status, hst, h⟩⟩ := sync_bind_eq_some h
  · cases h
    have hgo : setRunStatus s.status = none := by rw [setRunStatus, hst]; rfl
    exact ⟨hlock, congrArg (· + 1) hlock, _, rfl, .inl ⟨rfl, hgo, by simp⟩⟩
  obtain ⟨get, status, rfl, h⟩ := send_bind_eq_some h
  cases hget : get.acknowledged with
  | false =>
    rw [hget] at h
    cases h
    have hgo : setRunStatus s.status = none := by simp [setRunStatus, hst, ackedIn, hget]
    exact ⟨hlock, congrArg (· + 1) hlock, _ :: _, rfl, .inl ⟨rfl, hgo, by simp⟩⟩
  | true =>
  rw [hget] at h
  have hgo : setRunStatus s.status = ackedIn 99 status := by
    simp [setRunStatus, hst, ackedIn, hget]
  obtain ⟨saved, hsaved, h⟩ := bind_eq_some_iff.mp h
  obtain ⟨hlock', n', ⟨hst', h⟩ | ⟨status', hst', h⟩⟩ := sync_bind_eq_some h
  · cases h
    exact ⟨hlock, congrArg (· + 1) hlock', replicate n' .heartbeat ++
      .getRun :: replicate n .heartbeat, by simp [Se.after, mhuSecureMessageEnd],
      .inl ⟨rfl, hgo.trans hst', by simp⟩⟩
  obtain ⟨set, status', rfl, h⟩ := send_bind_eq_some h
  cases h
  refine ⟨hlock, congrArg (· + 1) hlock', .setRun (setRequest saved) ::
    (replicate n' .heartbeat ++ .getRun :: replicate n .heartbeat),
    by simp [Se.after, mhuSecureMessageEnd], .inr ⟨saved, _, hsaved, hgo.trans hst', ?_, by simp⟩⟩
  cases hset : set.acknowledged <;> simp [ackedIn, hset]

/-! ### The lock -/

/-- What has to hold of a call of `service_se_sync`: how many heartbeats it sends, what it returns,
unless the first one to be acknowledged is the last one, and that its caller has the lock if it
succeeds. -/
structure SyncRight (s s' : Se) (ret : Int) : Prop where
  acked : ∃ n ≤ maxTries, s'.sent = replicate n .heartbeat ++ s.sent ∧
    ((ackedIn maxTries s.status ≠ none → ackedIn (maxTries - 1) s.status ≠ none) →
      (ret = 0 ↔ ackedIn n s.status ≠ none))
  lock : s.taken = s.released ∧ s'.taken = s'.released + if ret = 0 then 1 else 0

/-- **Synchronisation** returns if the lock is free, and is right, and the services release the lock
on every path. -/
theorem se_sync_right (s : Se) :
    (s.taken = s.released → maxTries ≤ s.status.length → serviceSeSync s ≠ none) ∧
    (∀ ret s', serviceSeSync s = some (ret, s') → SyncRight s s' ret) ∧
    (∀ ret s', serviceOspiWriteAesKey s = some (ret, s') →
      s.taken = s.released ∧ s'.taken = s'.released) ∧
    ∀ ret s', serviceEnableUsbPhy s = some (ret, s') →
      s.taken = s.released ∧ s'.taken = s'.released := by
  refine ⟨fun hlock hlen => ?_, fun ret s' h => ?_, fun ret s' h => ?_, fun ret s' h => ?_⟩
  · have hloop := @syncLoop_ne_none (s.after s.status [] 1 0) maxTries hlen
    obtain ⟨r, hr⟩ := ne_none_iff_exists'.mp hloop
    rw [serviceSeSync, mhuSecureMessageStart, if_neg (not_not.mpr hlock), bind_eq_bind, bind_some,
      hr]
    dsimp only [bind_eq_bind, bind_some]
    split_ifs <;> nofun
  · obtain ⟨hlock, n, hn, ⟨rfl, rfl, -, hack⟩ | ⟨rfl, rfl, hst, rfl⟩⟩ := serviceSeSync_eq_some h
    · exact ⟨⟨n, hn, rfl, fun _ => iff_of_true rfl hack⟩, hlock, by simp [hlock, Se.after]⟩
    · exact ⟨⟨_, hn, rfl, fun hlast => iff_of_false (by decide) fun hack => hlast hack hst⟩, hlock,
        by simp [hlock, Se.after]⟩
  · obtain ⟨hlock, hlock', -⟩ := serviceOspiWriteAesKey_eq_some h
    exact ⟨hlock, hlock'⟩
  · obtain ⟨hlock, hlock', -⟩ := serviceEnableUsbPhy_eq_some h
    exact ⟨hlock, hlock'⟩

/-- Nothing has been sent yet. -/
def fresh (status : List Status) (responses : List RunProfileSvc) : Se :=
  ⟨status, responses, [], fun i => UInt8.ofNat i, 0, 0⟩

/-- The second heartbeat is acknowledged: the call succeeds, and returns with the lock. -/
theorem sync_keeps_lock :
    ∃ out, serviceSeSync (fresh [⟨0, 0, 0⟩, ⟨1, 1, 0⟩] []) = some out ∧
      out.1 = 0 ∧ out.2.taken = 1 ∧ out.2.released = 0 := by
  decide +kernel

theorem se_sync_right_second :
    ∃ out, serviceSeSync (fresh [⟨0, 0, 0⟩, ⟨1, 1, 0⟩] []) = some out ∧
      SyncRight (fresh [⟨0, 0, 0⟩, ⟨1, 1, 0⟩] []) out.2 out.1 := by
  exact exists_some_imp (q := fun _ => True) (by decide +kernel)
    fun out h _ => (se_sync_right _).2.1 out.1 out.2 h

/-! ### The key -/

/-- A call, whatever it returns. -/
def writeKeyStep (s : Se) (_ : Unit) : Option Se := (serviceOspiWriteAesKey s).map Prod.snd

theorem keyBytes_swapped (key : Nat → UInt8) :
    keyBytes ((range (aesEncKeyLen / 2)).foldl swapBytes key) = (keyBytes key).reverse := by
  rfl

/-- What `n` requests have carried, the last one first, and the key after them. -/
structure KeyWrites (key : List UInt8) (n : Nat) (s : Se) : Prop where
  keys : s.keys = ((range n).map fun i => reverse^[i + 1] key).reverse
  now : keyBytes s.aesEncKey = reverse^[n] key

theorem keyWrites_step {key : List UInt8} {n : Nat} {call : Unit} (h : KeyWrites key n s)
    (hstep : writeKeyStep s call = some s') :
    (ackedIn 99 s.status = none ∧ s'.status = s.status.drop maxTries ∧ KeyWrites key n s') ∨
      ∃ status, ackedIn 99 s.status = some status ∧ s'.status = status.tail ∧
        KeyWrites key (n + 1) s' := by
  obtain ⟨⟨ret, s₁⟩, hcall, rfl⟩ := map_eq_some_iff.mp hstep
  obtain ⟨-, -, ⟨hst, hdrop, hkey, hkeys⟩ | ⟨status, hst, htail, hkey, hkeys⟩⟩ :=
    serviceOspiWriteAesKey_eq_some hcall
  · exact .inl ⟨hst, hdrop, hkeys.trans h.keys, (congrArg keyBytes hkey).trans h.now⟩
  · have hnow : keyBytes s₁.aesEncKey = reverse^[n + 1] key := by
      rw [hkey, keyBytes_swapped, h.now, iterate_succ_apply']
    refine .inr ⟨status, hst, htail, ?_, hnow⟩
    rw [hkeys, hnow, h.keys, range_succ]
    simp

/-- How many of `n` calls pass synchronisation. -/
def passed : Nat → List Status → Nat
  | 0, _ => 0
  | n + 1, status =>
    match ackedIn 99 status with
    | none => passed n (status.drop maxTries)
    | some status => passed n status.tail + 1

theorem keyWrites_run {key : List UInt8} {n : Nat} {calls : List Unit} (h : KeyWrites key n s)
    (hrun : run writeKeyStep s calls = some s') :
    KeyWrites key (n + passed calls.length s.status) s' := by
  induction calls generalizing s n with
  | nil =>
    cases hrun
    exact h
  | cons call calls ih =>
    obtain ⟨t, hstep, hrest⟩ := run_cons hrun
    rw [length_cons, passed]
    obtain ⟨hst, hdrop, ht⟩ | ⟨status, hst, htail, ht⟩ := keyWrites_step h hstep
    · rw [hst, ← hdrop]
      exact ih ht hrest
    · rw [hst, ← Nat.add_assoc, Nat.add_right_comm, ← htail]
      exact ih ht hrest

/-- **Every request carries the key turned around** if and only if at most one call passes
synchronisation, or the key is the same both ways. -/
theorem key_writes_same_iff {calls : List Unit} (hstart : s.keys = [])
    (hrun : run writeKeyStep s calls = some s') :
    (∀ key ∈ s'.keys, key = (keyBytes s.aesEncKey).reverse) ↔
      passed calls.length s.status ≤ 1 ∨
        (keyBytes s.aesEncKey).reverse = keyBytes s.aesEncKey := by
  have hinv : KeyWrites (keyBytes s.aesEncKey) (0 + passed calls.length s.status) s' :=
    keyWrites_run ⟨hstart, rfl⟩ hrun
  rw [hinv.keys, Nat.zero_add]
  generalize keyBytes s.aesEncKey = key
  generalize passed calls.length s.status = n
  constructor
  · intro hall
    by_cases hn : n ≤ 1
    · exact .inl hn
    · have h1 : 1 ∈ range n := mem_range.mpr (by omega)
      exact .inr (hall key (mem_reverse.mpr (mem_map.mpr ⟨1, h1, reverse_reverse key⟩))).symm
  · intro hcond k hk
    obtain ⟨i, hi, rfl⟩ := mem_map.mp (mem_reverse.mp hk)
    rcases hcond with hn | hsame
    · obtain rfl : i = 0 := by
        have := mem_range.mp hi
        omega
      rfl
    · rw [iterate_fixed hsame, hsame]

/-- An acknowledgement of each of two requests. -/
def cycle : List Status := [⟨1, 1, 0⟩, ⟨1, 1, 0⟩]

/-- Heartbeats that are not acknowledged. -/
def silence : List Status := replicate maxTries ⟨0, 0, 0⟩

/-- The second of three calls passes synchronisation. -/
theorem key_writes_same_second :
    ∃ s', run writeKeyStep (fresh (silence ++ cycle ++ silence) []) [(), (), ()] = some s' ∧
      s'.keys.length = 1 ∧ ∀ key ∈ s'.keys, key = (keyBytes UInt8.ofNat).reverse := by
  refine exists_some_imp (q := fun s' => s'.keys.length = 1) (by decide +kernel)
    fun s' hrun hone => ⟨hone, ?_⟩
  exact (key_writes_same_iff rfl hrun).mpr (.inl (by decide +kernel))

/-- The second request carries the key as it is. -/
theorem second_key_unreversed :
    ∃ s', run writeKeyStep (fresh (cycle ++ cycle) []) [(), ()] = some s' ∧
      s'.keys = [keyBytes UInt8.ofNat, (keyBytes UInt8.ofNat).reverse] := by
  decide +kernel

/-! ### The run profile -/

/-- No error is reported. -/
def RunProfileSvc.NoError (svc : RunProfileSvc) : Prop :=
  svc.header.errorCode = 0 ∧ svc.respErrorCode = 0

/-- What has to hold of a call of `service_enable_usb_phy`, with the requests that it has sent: the
first response is that to GET_RUN and the second one that to SET_RUN. -/
structure UsbPhyRight (s : Se) (ret : Int) (new : List Request) : Prop where
  set : ∀ svc, .setRun svc ∈ new → ∃ got, s.responses.head? = some got ∧ got.NoError ∧
    svc.profile = { got.profile with phyPwrGating := got.profile.phyPwrGating ||| usbPhyMask }
  done : ret = 0 → ∀ resp, s.responses.tail.head? = some resp → resp.NoError

/-- **Errors are reported back** if and only if the response to GET_RUN reports none when the
enclave lets the call get to SET_RUN, and that to SET_RUN reports none when it acknowledges it. -/
theorem usb_phy_right_iff (h : serviceEnableUsbPhy s = some (ret, s')) :
    ∃ new, s'.sent = new ++ s.sent ∧ (UsbPhyRight s ret new ↔
      ∀ status, setRunStatus s.status = some status →
        (∀ got, s.responses.head? = some got → got.NoError) ∧
        (ackedIn 1 status ≠ none →
          ∀ resp, s.responses.tail.head? = some resp → resp.NoError)) := by
  obtain ⟨-, -, new, hnew, ⟨rfl, hst, hnone⟩ | ⟨saved, status, hsaved, hst, hret, hset⟩⟩ :=
    serviceEnableUsbPhy_eq_some h
  · exact ⟨new, hnew, iff_of_true ⟨fun svc hsvc => absurd hsvc (hnone svc), by simp⟩
      (by simp [hst])⟩
  refine ⟨new, hnew, ?_⟩
  constructor
  · intro hright status' hst'
    cases hst.symm.trans hst'
    refine ⟨fun got hgot => ?_, fun hack => hright.done (hret.mpr hack)⟩
    obtain ⟨got', hgot', hno, -⟩ := hright.set _ ((hset _).mpr rfl)
    cases hgot.symm.trans hgot'
    exact hno
  · intro hcond
    obtain ⟨hget, hdone⟩ := hcond status hst
    refine ⟨fun svc hsvc => ⟨saved, hsaved, hget saved hsaved, ?_⟩, fun h0 => hdone (hret.mp h0)⟩
    rw [(hset svc).mp hsvc]
    rfl

/-- A response with the profile 0 and an error. -/
def failed (errorCode : BitVec 16) : RunProfileSvc :=
  ⟨⟨310, 0, errorCode, 0⟩, ⟨0, 0, 0, 0, 0, 0, 0, 0, 0, 0, 0⟩, 0⟩

theorem usb_phy_right_acknowledged :
    ∃ out, serviceEnableUsbPhy (fresh (cycle ++ cycle) [failed 0, failed 0]) = some out ∧
      out.1 = 0 ∧ UsbPhyRight (fresh (cycle ++ cycle) [failed 0, failed 0]) out.1 out.2.sent := by
  refine exists_some_imp (q := fun out => out.1 = 0) (by decide +kernel) fun out h hret => ?_
  obtain ⟨new, hnew, hiff⟩ := usb_phy_right_iff h
  obtain rfl : out.2.sent = new := hnew.trans (append_nil new)
  refine ⟨hret, hiff.mpr fun _ _ => ⟨fun got hgot => ?_, fun _ resp hresp => ?_⟩⟩
  · cases hgot
    exact ⟨rfl, rfl⟩
  · cases hresp
    exact ⟨rfl, rfl⟩

/-- The enclave fails twice, and the call returns 0. -/
theorem errors_ignored :
    ∃ out, serviceEnableUsbPhy (fresh (cycle ++ cycle) [failed 0xFC, failed 0xFC]) = some out ∧
      out.1 = 0 ∧ .setRun (setRequest (failed 0xFC)) ∈ out.2.sent := by
  decide +kernel

end TrustedFirmware.DevkitE7.SeServices
