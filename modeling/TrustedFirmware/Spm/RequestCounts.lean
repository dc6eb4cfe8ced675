import TrustedFirmware.Lib.Tally
import TrustedFirmware.Spm.SpciMoves

/-!
# The counters of the SPCI

`num_active_requests` of a handle and `request_count` of a partition count the requests whose
response has not been handed out, and the calls that are about to hand in or to hand out one. The
invariant says so for every state of the system. It needs that a response belongs to a request, so
it follows the messages from the queues into the partitions and back; and that a handle that a call
has looked up is still the one that its value names, so it follows the handles from the first one
opened.
-/

namespace TrustedFirmware.Spm.Spci

open Lib Spm.Responses List Function SpContext State Pc UInt16 Option Nat

variable {n : Nat} {Sp Cpu Uuid : Type} [DecidableEq Sp]
variable {s : State n Sp Cpu} {pc : Pc n Sp} {e : Effect n Sp} {nxt : Next n Sp}
  {cpu : Cpu} {net : Net}

/-! ### The state after a move -/

variable [DecidableEq Cpu] in
/-- Apart from the effect of its move, only the CPU changes. -/
theorem exec_eq : s.exec cpu net e nxt = { s.apply e with
    pc := update s.pc cpu nxt.pc
    net := update s.net cpu (net.add e.net)
    returns := (s.exec cpu net e nxt).returns } := by
  cases nxt <;> rfl

theorem apply_returns : (s.apply e).returns = s.returns := by
  cases e <;> rfl

/-! ### The invariant -/

/-- The non-blocking messages with a key that the partition has, or that wait for it. -/
def SpContext.messages (c : SpContext) (key : Key) : Nat :=
  (c.queue .nonBlocking).countP (· = key) + c.received.countP (· = (.nonBlocking, key))

/-- The blocking messages. -/
def SpContext.blocking (c : SpContext) : Nat :=
  (c.queue .blocking).length + c.received.countP (·.1 = .blocking)

theorem messages_push_nonBlocking (c : SpContext) (key key' : Key) :
    (c.push .nonBlocking key').messages key = c.messages key + if key' = key then 1 else 0 := by
  simp [messages, push, countP_append, countP_cons]
  omega

theorem blocking_push_blocking (c : SpContext) (key : Key) :
    (c.push .blocking key).blocking = c.blocking + 1 := by
  simp [blocking, push]
  omega

theorem blocking_push_nonBlocking (c : SpContext) (key : Key) :
    (c.push .nonBlocking key).blocking = c.blocking := by
  simp [blocking, push]

variable {c : SpContext} {q : QueueNum} {key : Key} {r : HandleRef n Sp} {k : Fin n} {sp : Sp}
  {handles : Fin n → SpciHandle Sp}

/-- A message stays with the partition when it is taken out of its queue. -/
theorem messages_pop (key : Key) (hq : c.queue q ≠ []) :
    (c.pop q).messages key = c.messages key := by
  obtain ⟨key', rest, hque⟩ := exists_cons_of_ne_nil hq
  cases q with
  | blocking => simp [messages, pop, hque]
  | nonBlocking =>
    simp [messages, pop, hque, countP_cons]
    omega

theorem blocking_pop (hq : c.queue q ≠ []) : (c.pop q).blocking = c.blocking := by
  obtain ⟨key', rest, hque⟩ := exists_cons_of_ne_nil hq
  cases q with
  | blocking =>
    simp [blocking, pop, hque]
    omega
  | nonBlocking => simp [blocking, pop, hque]

/-- The partition answers a message that it has received. -/
theorem messages_answer {key' : Key} (key : Key) (hmem : (q, key') ∈ c.received) :
    ({ c with received := c.received.erase (q, key') } : SpContext).messages key +
      (if q = .nonBlocking ∧ key' = key then 1 else 0) = c.messages key := by
  have hle : (if q = .nonBlocking ∧ key' = key then 1 else 0) ≤
      c.received.countP (· = (.nonBlocking, key)) := by
    split_ifs with hkey
    · obtain ⟨rfl, rfl⟩ := hkey
      exact countP_pos_iff.mpr ⟨_, hmem, by simp⟩
    · exact zero_le _
  simp only [messages, countP_erase, hmem, true_and, decide_eq_true_eq, Prod.mk.injEq]
  omega

theorem blocking_answer (hmem : (q, key) ∈ c.received) :
    ({ c with received := c.received.erase (q, key) } : SpContext).blocking +
      (if q = .blocking then 1 else 0) = c.blocking := by
  have hle : (if q = .blocking then 1 else 0) ≤ c.received.countP (·.1 = .blocking) := by
    split_ifs with hq
    · exact countP_pos_iff.mpr ⟨_, hmem, by simp [hq]⟩
    · exact zero_le _
  simp only [blocking, countP_erase, hmem, true_and, decide_eq_true_eq]
  omega

/-- What holds of a handle that a call has looked up: its value has not been given out again, so
an open handle with this value is still the same. -/
structure State.RefOk (s : State n Sp Cpu) (r : HandleRef n Sp) : Prop where
  lt : r.openedAt < s.opens
  window : s.opens ≤ r.openedAt + 2 ^ 16
  handle : r.key.handle = UInt16.ofNat r.openedAt
  same : ∀ j, (s.handles j).status = .opened → s.openedAt j = r.openedAt →
    j = r.slot ∧ (s.handles j).spCtx = some r.sp

/-- What holds of an open handle. -/
structure State.OpenOk (s : State n Sp Cpu) (k : Fin n) : Prop where
  lt : s.openedAt k < s.opens
  window : s.opens ≤ s.openedAt k + 2 ^ 16
  handle : (s.handles k).handle = UInt16.ofNat (s.openedAt k)

omit [DecidableEq Sp] in
/-- Handles of which fewer than 2^16 have been opened since have different values. -/
theorem openedAt_eq {opens o o' : Nat} (ho : o < opens) (hwin : opens ≤ o + 2 ^ 16)
    (ho' : o' < opens) (hwindow' : opens ≤ o' + 2 ^ 16)
    (hval : ofNat o = ofNat o') : o = o' := by
  have hmod := congrArg UInt16.toNat hval
  rw [toNat_ofNat', toNat_ofNat'] at hmod
  omega

omit [DecidableEq Sp] in
/-- An open handle has the value of a request only if it is the one that the call has looked up
for that value. -/
theorem State.RefOk.slot_eq (href : s.RefOk r) (hopen : s.OpenOk k)
    (hstat : (s.handles k).status = .opened) (hhd : (s.handles k).handle = r.key.handle) :
    k = r.slot ∧ (s.handles k).spCtx = some r.sp := by
  refine href.same k hstat (openedAt_eq hopen.lt hopen.window href.lt href.window ?_)
  rw [← hopen.handle, hhd, href.handle]

structure Inv [Fintype Sp] [Fintype Cpu] (s : State n Sp Cpu) : Prop where
  /-- Handles get consecutive values. -/
  handleCount : s.handleCount = UInt16.ofNat s.opens
  closed : ∀ k, (s.handles k).status = .closed → s.handles k = .zero
  opened : ∀ k, (s.handles k).status = .opened → s.OpenOk k
  distinct : ∀ j k, (s.handles j).status = .opened → (s.handles k).status = .opened →
    s.openedAt j = s.openedAt k → j = k
  /-- A request is for a handle that is still open. -/
  accepted : ∀ r ∈ s.undelivered, s.Names r.slot r.sp r.key
  held : ∀ cpu k sp, (s.pc cpu).held = some (k, sp) →
    (s.handles k).status = .opened ∧ (s.handles k).spCtx = some sp
  startPush : ∀ cpu k sp key, s.pc cpu = .startPush k sp key → s.Names k sp key
  refs : ∀ cpu r, (s.pc cpu).ref = some r → s.RefOk r
  /-- The counts. -/
  active : ∀ k, (s.handles k).numActiveRequests.toNat =
    s.undelivered.countP (·.slot = k) + tally slot s.pc k
  requests : ∀ sp, (s.partitions sp).requestCount.toNat =
    s.undelivered.countP (·.sp = sp) + tally charged s.pc sp
  /-- A partition is busy as long as one call is in it. -/
  owners : ∀ sp, tally owner s.pc sp = if (s.partitions sp).state = .busy then 1 else 0
  /-- A blocking message is there only for the call that has sent it. -/
  blocking : ∀ sp, (s.partitions sp).blocking = tally inBlocking s.pc sp
  /-- Every other message, and every response, is for a request of its own. -/
  messages : ∀ key, (∑ sp, (s.partitions sp).messages key) + tally transit s.pc key +
    s.responses.countP (·.1 = key) ≤ s.undelivered.countP (·.key = key)
  /-- A call that can still fail has not changed the counts. -/
  net : ∀ cpu r, (s.pc cpu).ref = some r → s.net cpu = ⟨0, 0⟩
  errors : ∀ ret ∈ s.returns, ∀ err, ret.ret = .error err → ret.net = ⟨0, 0⟩

/-! ### What effects leave alone -/

/-- The entry that is opened or closed. -/
def Effect.rewrites : Effect n Sp → Option (Fin n)
  | .openHandle k _ _ | .closeHandle k => some k
  | .skip | .accept _ _ | .acceptToken _ _ | .releaseHandle _ | .releasePartition _
  | .setState _ _ | .pushBlocking _ _ | .pushNonBlocking _ _ _ | .pop _ _ | .answer _ _ _
  | .responseAdd _ _ | .responseGet _ => none

/-- Two entries that differ at most in their counts. -/
structure SameHandle (h h' : SpciHandle Sp) : Prop where
  status : h'.status = h.status
  spCtx : h'.spCtx = h.spCtx
  handle : h'.handle = h.handle
  clientId : h'.clientId = h.clientId

omit [DecidableEq Sp] in
theorem SameHandle.refl (h : SpciHandle Sp) : SameHandle h h := ⟨rfl, rfl, rfl, rfl⟩

omit [DecidableEq Sp] in
/-- A write to an entry, which may not be the one that is looked at. -/
theorem SameHandle.update {j : Fin n} {h : SpciHandle Sp} (hj : k = j → SameHandle (handles k) h) :
    SameHandle (handles k) (update handles j h k) := by
  obtain rfl | hne := eq_or_ne k j
  · rw [update_self]
    exact hj rfl
  · rw [update_of_ne hne]
    exact .refl _

theorem apply_sameHandle (hk : e.rewrites ≠ some k) :
    SameHandle (s.handles k) ((s.apply e).handles k) := by
  cases e with
  | openHandle j | closeHandle j =>
    exact .update fun hkj => absurd (congrArg some hkj.symm) hk
  | accept j | acceptToken j | releaseHandle j =>
    exact .update fun hkj => hkj ▸ ⟨rfl, rfl, rfl, rfl⟩
  | _ => exact .refl _

theorem apply_openedAt (hk : e.rewrites ≠ some k) : (s.apply e).openedAt k = s.openedAt k := by
  cases e with
  | openHandle j =>
    have hne : k ≠ j := fun hkj => hk (congrArg some hkj.symm)
    simp [apply, update_of_ne hne]
  | _ => rfl

theorem opens_le_apply : s.opens ≤ (s.apply e).opens := by
  cases e with
  | openHandle => exact le_succ _
  | _ => exact le_rfl

/-- A write to a partition that leaves a part of it as it is. -/
theorem update_part {α : Type} (f : SpContext → α) {partitions : Sp → SpContext} {sp' : Sp}
    (hc : f c = f (partitions sp')) :
    f (update partitions sp' c sp) = f (partitions sp) := by
  obtain rfl | hne := eq_or_ne sp sp'
  · rw [update_self, hc]
  · rw [update_of_ne hne]

/-- The effects on the count of a partition. -/
def Effect.counts : Effect n Sp → Bool
  | .accept _ _ | .acceptToken _ _ | .releasePartition _ => true
  | .skip | .openHandle _ _ _ | .closeHandle _ | .releaseHandle _ | .setState _ _
  | .pushBlocking _ _ | .pushNonBlocking _ _ _ | .pop _ _ | .answer _ _ _ | .responseAdd _ _
  | .responseGet _ => false

theorem apply_requestCount (he : e.counts = false) :
    ((s.apply e).partitions sp).requestCount = (s.partitions sp).requestCount := by
  cases e with
  | accept | acceptToken | releasePartition => simp [Effect.counts] at he
  | setState | pushBlocking | pushNonBlocking | pop => exact update_part requestCount rfl
  | answer => exact update_part requestCount rfl
  | _ => rfl

/-- The effects on the state of a partition. -/
def Effect.switches : Effect n Sp → Bool
  | .setState _ _ => true
  | .skip | .openHandle _ _ _ | .closeHandle _ | .accept _ _ | .acceptToken _ _
  | .releaseHandle _ | .releasePartition _ | .pushBlocking _ _ | .pushNonBlocking _ _ _ | .pop _ _
  | .answer _ _ _ | .responseAdd _ _ | .responseGet _ => false

theorem apply_state (he : e.switches = false) :
    ((s.apply e).partitions sp).state = (s.partitions sp).state := by
  cases e with
  | setState => simp [Effect.switches] at he
  | accept | acceptToken | releasePartition | pushBlocking => exact update_part state rfl
  | pushNonBlocking | pop | answer => exact update_part state rfl
  | _ => rfl

/-- The effects on the messages of a partition. -/
def Effect.delivers : Effect n Sp → Bool
  | .pushBlocking _ _ | .pushNonBlocking _ _ _ | .pop _ _ | .answer _ _ _ => true
  | .skip | .openHandle _ _ _ | .closeHandle _ | .accept _ _ | .acceptToken _ _
  | .releaseHandle _ | .releasePartition _ | .setState _ _ | .responseAdd _ _
  | .responseGet _ => false

theorem apply_blocking (he : e.delivers = false) :
    ((s.apply e).partitions sp).blocking = (s.partitions sp).blocking := by
  cases e with
  | accept | acceptToken | releasePartition | setState => exact update_part blocking rfl
  | skip | openHandle k sp' clientId | closeHandle k | releaseHandle k => rfl
  | responseAdd key values | responseGet key => rfl
  | _ => simp [Effect.delivers] at he

theorem apply_messages (key : Key) (he : e.delivers = false) :
    ((s.apply e).partitions sp).messages key = (s.partitions sp).messages key := by
  cases e with
  | accept | acceptToken | releasePartition | setState => exact update_part (·.messages key) rfl
  | skip | openHandle k sp' clientId | closeHandle k | releaseHandle k => rfl
  | responseAdd key' values | responseGet key' => rfl
  | _ => simp [Effect.delivers] at he

theorem names_apply (h : s.Names k sp key) (hk : e.rewrites ≠ some k) :
    (s.apply e).Names k sp key := by
  obtain ⟨hstat, hsp, hhd, hcli⟩ := apply_sameHandle hk
  exact ⟨hstat.trans h.status, hsp.trans h.spCtx, hhd.trans h.handle, hcli.trans h.clientId⟩

theorem toNat_add_one {x : UInt32} (h : x.toNat + 1 < 2 ^ 32) : (x + 1).toNat = x.toNat + 1 := by
  exact mod_eq_of_lt h

theorem toNat_sub_one {x : UInt32} (h : 0 < x.toNat) : (x - 1).toNat + 1 = x.toNat := by
  rw [UInt32.toNat_sub_of_le x 1 (UInt32.le_iff_toNat_le.mpr h)]
  exact succ_pred_eq_of_pos h

attribute [local simp] apply addActive addCount setHandle setPartition
  Next.pc slot charged held inBlocking transit

/-! ### What moves do to the handles -/

theorem apply_opens (hm : Move s pc e nxt) :
    ((s.apply e).opens = s.opens ∧ (s.apply e).handleCount = s.handleCount ∧
        ∀ k, ((s.apply e).handles k).status = .opened → e.rewrites ≠ some k) ∨
      ∃ k sp clientId, e = .openHandle k sp clientId ∧ (s.handles k).status = .closed ∧
        (∀ j, (s.handles j).status = .opened → s.opens < s.openedAt j + 2 ^ 16) ∧
        ∀ cpu, ∀ r ∈ (s.pc cpu).ref, s.opens < r.openedAt + 2 ^ 16 := by
  cases hm with
  | openPoll k sp clientId hcl hopen hrefs =>
    exact .inr ⟨k, sp, clientId, rfl, hcl, hopen, hrefs⟩
  | close j =>
    refine .inl ⟨rfl, rfl, fun k hstat hk => ?_⟩
    obtain rfl : j = k := some.inj hk
    simp [SpciHandle.zero] at hstat
  | _ => exact .inl ⟨rfl, rfl, fun k _ hk => by simp [Effect.rewrites] at hk⟩

omit [DecidableEq Sp] in
theorem Move.rewrites_of_held (hm : Move s pc e nxt) (hheld : nxt.pc.held = some (k, sp)) :
    e.rewrites ≠ some k := by
  cases hm with
  | openPoll | close => simp at hheld
  | _ => simp [Effect.rewrites]

omit [DecidableEq Sp] in
/-- A call that is about to send its request has just looked up the handle. -/
theorem Move.names_of_startPush (hm : Move s pc e nxt) (hpc : nxt.pc = .startPush k sp key) :
    s.Names k sp key := by
  cases hm with
  | start j sp' key' hnam =>
    obtain ⟨rfl, rfl, rfl⟩ := startPush.inj hpc
    exact hnam
  | pop pc sp' q hins =>
    obtain rfl : pc = .startPush k sp key := hpc
    simp [Pc.inside] at hins
  | _ => cases hpc

/-- A handle that a call refers to stays the one that its value names, as long as the value is not
given out again. -/
theorem refOk_apply (hm : Move s pc e nxt) (href : s.RefOk r)
    (hwin : (s.apply e).opens ≤ r.openedAt + 2 ^ 16) : (s.apply e).RefOk r := by
  refine ⟨href.lt.trans_le opens_le_apply, hwin, href.handle, fun j hstat hsame => ?_⟩
  by_cases hj : e.rewrites = some j
  · rcases apply_opens hm with ⟨-, -, hrew⟩ | ⟨k, sp, clientId, rfl, -⟩
    · exact absurd hj (hrew j hstat)
    · -- The handle has just been opened, and the call refers to an earlier one.
      cases hj
      simp only [apply, update_self] at hsame
      exact absurd hsame href.lt.ne'
  · have hkept := apply_sameHandle (s := s) hj
    rw [apply_openedAt hj] at hsame
    rw [hkept.spCtx]
    exact href.same j (hkept.status.symm.trans hstat) hsame

omit [DecidableEq Sp] in
/-- A call that refers to a handle has just begun or has referred to it before, and its move leaves
the counts alone. -/
theorem Move.net_of_ref (hm : Move s pc e nxt) (href : nxt.pc.ref = some r) :
    (pc = .idle ∨ ∃ r, pc.ref = some r) ∧ e.net = ⟨0, 0⟩ := by
  cases hm with
  | lookUp => exact ⟨.inl rfl, rfl⟩
  | _ => first
    | exact ⟨.inr ⟨r, href⟩, rfl⟩
    | simp [ref] at href

omit [DecidableEq Sp] in
/-- So does a call that fails. -/
theorem Move.net_of_error (hm : Move s pc e nxt) {err : SpciError}
    (hfai : nxt = .ret (.error err)) :
    (pc = .idle ∨ ∃ r, pc.ref = some r) ∧ e.net = ⟨0, 0⟩ := by
  cases hm with
  | callFails => exact ⟨.inl rfl, rfl⟩
  | resumeQueued | getQueued => exact ⟨.inr ⟨_, rfl⟩, rfl⟩
  | _ => cases hfai

section

variable [Fintype Sp] [Fintype Cpu]

theorem inv_init : Inv (init : State n Sp Cpu) where
  handleCount := rfl
  closed _ _ := rfl
  opened _ h := nomatch h
  distinct _ _ h := nomatch h
  accepted _ h := nomatch h
  held _ _ _ h := nomatch h
  startPush _ _ _ _ h := nomatch h
  refs _ _ h := nomatch h
  active _ := by simp [init, SpciHandle.zero, tally, slot, held]
  requests _ := by simp [init, tally, charged, held]
  owners _ := by simp [init, tally, owner]
  blocking _ := by simp [init, blocking, tally, inBlocking]
  messages _ := by simp [init, messages, tally, transit]
  net _ _ _ := rfl
  errors _ h := nomatch h

/-! ### The handles -/

/-- An entry without active requests is of no request and of no call. -/
theorem Inv.unused (h : Inv s) (hact : (s.handles k).numActiveRequests = 0) :
    (∀ r ∈ s.undelivered, r.slot ≠ k) ∧ ∀ cpu sp, (s.pc cpu).held ≠ some (k, sp) := by
  have hsum := h.active k
  rw [hact] at hsum
  have hzero : s.undelivered.countP (·.slot = k) = 0 ∧ tally slot s.pc k = 0 := by
    simpa using hsum.symm
  refine ⟨fun r hr hslot => ?_, fun cpu sp hheld => ?_⟩
  · have := countP_eq_zero.mp hzero.1 r hr
    simp [hslot] at this
  · have hpos : 0 < tally slot s.pc k := tally_pos (by rw [slot, hheld]; rfl)
    omega

/-- The entry that a move opens or closes has no active requests. -/
theorem Inv.rewrites_active (h : Inv s) (hm : Move s pc e nxt) (hk : e.rewrites = some k) :
    (s.handles k).numActiveRequests = 0 := by
  cases hm with
  | openPoll j sp clientId hcl =>
    obtain rfl : j = k := some.inj hk
    rw [h.closed j hcl]
    rfl
  | close j hact =>
    obtain rfl : j = k := some.inj hk
    exact hact
  | _ => simp [Effect.rewrites] at hk

/-- A request keeps its handle. -/
theorem Inv.names_of_mem (h : Inv s) (hm : Move s pc e nxt) {r : Request n Sp}
    (hr : r ∈ s.undelivered) : (s.apply e).Names r.slot r.sp r.key :=
  names_apply (h.accepted r hr) fun hk => (h.unused (h.rewrites_active hm hk)).1 r hr rfl

/-- A response that is found is for a request, and every request with its key is for the handle and
the partition that the call has looked up. -/
theorem Inv.delivered (h : Inv s) {from_ : GetFrom} {openedAt : Nat} {values : Values}
    (hpc : s.pc cpu = .get from_ k openedAt sp key)
    (hfd : spmResponseGet s.responses key = some values) :
    ∃ r ∈ s.undelivered, r.key = key ∧ r.slot = k ∧ r.sp = sp ∧
      ∀ q : Request n Sp → Bool, s.undelivered.countP q =
        (s.undelivered.eraseP (·.key = key)).countP q + if q r = true then 1 else 0 := by
  obtain ⟨resp, hresp, -⟩ := map_eq_some_iff.mp hfd
  have hmat := find?_some hresp
  have hsto : 0 < s.responses.countP (·.1 = key) :=
    countP_pos_iff.mpr ⟨resp, mem_of_find?_eq_some hresp, hmat⟩
  have hcnt : 0 < s.undelivered.countP (·.key = key) := by
    have := h.messages key
    omega
  obtain ⟨r, hr, hkey, hall⟩ := countP_eraseP (countP_pos_iff.mp hcnt)
  have hkey : r.key = key := of_decide_eq_true hkey
  have hnam := h.accepted r hr
  have href : s.RefOk ⟨k, openedAt, sp, key⟩ := h.refs cpu _ (by rw [hpc]; rfl)
  obtain ⟨hslot, hsp⟩ := href.slot_eq (h.opened r.slot hnam.status) hnam.status
    (by rw [hnam.handle, hkey])
  refine ⟨r, hr, hkey, hslot, ?_, hall⟩
  exact some.inj (hnam.spCtx.symm.trans hsp)

/-! ### The partitions -/

theorem Inv.busy_of_owner (h : Inv s) (hown : (s.pc cpu).owner = some sp) :
    (s.partitions sp).state = .busy := by
  have hpos : 0 < tally owner s.pc sp := tally_pos hown
  rw [h.owners sp] at hpos
  by_contra hst
  rw [if_neg hst] at hpos
  exact lt_irrefl 0 hpos

/-- A partition that has been entered for a request that is started or resumed has no blocking
message: there would be another call in it. -/
theorem Inv.nonBlocking_of_entry (h : Inv s) {after : After n} (hpc : s.pc cpu = .entry sp after)
    (hmem : (q, key) ∈ (s.partitions sp).received) :
    q = .nonBlocking := by
  cases q with
  | nonBlocking => rfl
  | blocking =>
    have hpos : 0 < (s.partitions sp).blocking := by
      have : 0 < (s.partitions sp).received.countP (·.1 = .blocking) :=
        countP_pos_iff.mpr ⟨_, hmem, by simp⟩
      rw [SpContext.blocking]
      omega
    rw [h.blocking sp] at hpos
    have hoth : ∃ cpu', (s.pc cpu').inBlocking = some sp := by
      by_contra hnone
      rw [tally_eq_zero fun cpu' hcpu' => hnone ⟨cpu', hcpu'⟩] at hpos
      exact lt_irrefl 0 hpos
    obtain ⟨cpu', hcpu'⟩ := hoth
    have hown : (s.pc cpu').owner = some sp := by
      cases hpc' : s.pc cpu' with
      | blockingEntry =>
        rw [hpc'] at hcpu'
        exact hcpu'
      | _ => simp [hpc'] at hcpu'
    have hone : tally owner s.pc sp ≤ 1 := by
      rw [h.owners sp]
      split <;> omega
    classical
    have hsame : cpu = cpu' := tally_unique hone (by rw [hpc]; rfl) hown
    rw [← hsame, hpc] at hcpu'
    simp at hcpu'

omit [Fintype Cpu] in
/-- Writing to one partition changes the number of messages by what it does there. -/
theorem sum_messages_setPartition (sp : Sp) (c : SpContext) (key : Key) :
    (∑ sp', ((s.setPartition sp c).partitions sp').messages key) + (s.partitions sp).messages key =
      (∑ sp', (s.partitions sp').messages key) + c.messages key :=
  sum_update (·.messages key) s.partitions sp c

omit [Fintype Cpu] in
theorem sum_messages_apply (key : Key) (he : e.delivers = false) :
    ∑ sp, ((s.apply e).partitions sp).messages key = ∑ sp, (s.partitions sp).messages key :=
  Finset.sum_congr rfl fun _ _ => apply_messages key he

/-! ### Moves and the handles -/

section

variable (h : Inv s) (hpc : s.pc cpu = pc) (hm : Move s pc e nxt)

include h hm

theorem Inv.handleCount_move : (s.apply e).handleCount = ofNat (s.apply e).opens := by
  rcases apply_opens hm with ⟨hop, hcnt, -⟩ | ⟨k, sp, clientId, rfl, -⟩
  · rw [hop, hcnt, h.handleCount]
  · simp only [apply, h.handleCount, ofNat_add]
    rfl

/-- A handle that is open afterwards has just been opened, or was open before. -/
theorem Inv.openOk_move
    (hstat : ((s.apply e).handles k).status = .opened) : (s.apply e).OpenOk k := by
  have hkept : e.rewrites ≠ some k → (s.apply e).opens ≤ s.openedAt k + 2 ^ 16 →
      (s.apply e).OpenOk k := by
    intro hk hwin
    have hsame := apply_sameHandle (s := s) hk
    have hopen := h.opened k (hsame.status.symm.trans hstat)
    refine ⟨?_, ?_, ?_⟩
    · rw [apply_openedAt hk]
      exact hopen.lt.trans_le opens_le_apply
    · rw [apply_openedAt hk]
      exact hwin
    · rw [apply_openedAt hk, hsame.handle, hopen.handle]
  rcases apply_opens hm with ⟨hop, -, hrew⟩ | ⟨j, sp, clientId, rfl, -, hopen, -⟩
  · have hk := hrew k hstat
    have hwas := (apply_sameHandle hk).status.symm.trans hstat
    exact hkept hk (hop.trans_le (h.opened k hwas).window)
  · obtain rfl | hne := eq_or_ne k j
    · refine ⟨?_, ?_, ?_⟩
      · simp
      · simp
      · simp [h.handleCount]
    · have hk : (Effect.openHandle j sp clientId).rewrites ≠ some k :=
        fun hkj => hne (some.inj hkj).symm
      have hwas := (apply_sameHandle hk).status.symm.trans hstat
      exact hkept hk (hopen k hwas)

theorem Inv.distinct_move {j : Fin n}
    (hj : ((s.apply e).handles j).status = .opened) (hk : ((s.apply e).handles k).status = .opened)
    (hsame : (s.apply e).openedAt j = (s.apply e).openedAt k) : j = k := by
  have hwas : ∀ {i}, e.rewrites ≠ some i → ((s.apply e).handles i).status = .opened →
      (s.handles i).status = .opened := fun hi hstat =>
    (apply_sameHandle hi).status.symm.trans hstat
  -- A handle that has just been opened comes after all the others.
  have hfr : ∀ {i i'}, e.rewrites = some i → ((s.apply e).handles i).status = .opened →
      e.rewrites ≠ some i' → ((s.apply e).handles i').status = .opened →
        (s.apply e).openedAt i' < (s.apply e).openedAt i := by
    intro i i' hi hstat hi' hstatus'
    rcases apply_opens hm with ⟨-, -, hrew⟩ | ⟨i, sp, clientId, rfl, -⟩
    · exact absurd hi (hrew i hstat)
    · cases hi
      rw [apply_openedAt hi']
      simpa [apply] using (h.opened i' (hwas hi' hstatus')).lt
  by_cases hj' : e.rewrites = some j
  · by_cases hk' : e.rewrites = some k
    · exact some.inj (hj'.symm.trans hk')
    · exact absurd hsame (hfr hj' hj hk' hk).ne'
  · by_cases hk' : e.rewrites = some k
    · exact absurd hsame (hfr hk' hk hj' hj).ne
    · rw [apply_openedAt hj', apply_openedAt hk'] at hsame
      exact h.distinct j k (hwas hj' hj) (hwas hk' hk) hsame

/-- A handle that a call is counted in is not opened or closed. -/
theorem Inv.rewrites_of_held (hheld : (s.pc cpu).held = some (k, sp)) : e.rewrites ≠ some k :=
  fun hk => (h.unused (h.rewrites_active hm hk)).2 cpu sp hheld

include hpc

theorem Inv.closed_move
    (hstat : ((s.apply e).handles k).status = .closed) : (s.apply e).handles k = .zero := by
  have hwrite (j : Fin n) (h' : SpciHandle Sp) (hnew : h'.status = .closed → h' = .zero) :=
    (forall_update_iff s.handles (a := j) fun _ h => h.status = .closed → h = .zero).mpr
      ⟨hnew, fun k _ => h.closed k⟩
  -- The counts are written only in entries that are open.
  have hcnt (j : Fin n) (count : UInt32) (hopen : (s.handles j).status = .opened) :=
    hwrite j { s.handles j with numActiveRequests := count } fun hcl =>
      absurd (hopen.symm.trans hcl) (by simp)
  cases hm with
  | openPoll j => exact hwrite j _ (by simp) k hstat
  | close j => exact hwrite j _ (fun _ => rfl) k hstat
  | blocking j sp key hnam | start j sp key hnam => exact hcnt j _ hnam.status k hstat
  | release readSp j sp =>
    exact hcnt j _ (h.held cpu j sp (by rw [hpc]; rfl)).1 k hstat
  | _ => exact h.closed k hstat

theorem Inv.accepted_move {r : Request n Sp} (hr : r ∈ (s.apply e).undelivered) :
    (s.apply e).Names r.slot r.sp r.key := by
  cases hm with
  | startPush k sp key =>
    rcases mem_cons.mp hr with rfl | hr
    · exact names_apply (h.startPush cpu k sp key hpc) (by simp [Effect.rewrites])
    · exact h.names_of_mem (.startPush k sp key) hr
  | getFound from_ k openedAt sp key readSp values hfd =>
    exact h.names_of_mem (.getFound from_ k openedAt sp key readSp values hfd)
      (mem_of_mem_eraseP hr)
  | openPoll k sp clientId hcl hopen hrefs =>
    exact h.names_of_mem (.openPoll k sp clientId hcl hopen hrefs) hr
  | close k hact => exact h.names_of_mem (.close k hact) hr
  | _ => exact names_apply (h.accepted r hr) (by simp [Effect.rewrites])

/-- The handle that a call is counted in after a move is open, with the partition of the call. -/
theorem Inv.held_move (hheld : nxt.pc.held = some (k, sp)) :
    (s.handles k).status = .opened ∧ (s.handles k).spCtx = some sp := by
  have hkept : pc.held = some (k, sp) →
      (s.handles k).status = .opened ∧ (s.handles k).spCtx = some sp := fun hpc' =>
    h.held cpu k sp (by rw [hpc, hpc'])
  cases hm with
  | blocking j sp' key hnam | start j sp' key hnam =>
    cases hheld
    exact ⟨hnam.status, hnam.spCtx⟩
  | getFound from_ j openedAt sp' key readSp values hfd =>
    cases hheld
    obtain ⟨r, hr, -, rfl, rfl, -⟩ := h.delivered hpc hfd
    exact ⟨(h.accepted r hr).status, (h.accepted r hr).spCtx⟩
  | _ => first
    | exact hkept hheld
    | simp at hheld

/-- A handle that a call refers to after a move is the one that it has referred to, or has just been
looked up. -/
theorem Inv.ref_move
    (href : nxt.pc.ref = some r) : s.RefOk r ∧ e.rewrites = none ∧ (s.apply e).opens = s.opens := by
  have hkept : pc.ref = some r → s.RefOk r := fun hpc' => h.refs cpu r (by rw [hpc, hpc'])
  cases hm with
  | lookUp from_ k sp key hnam =>
    cases href
    have hopen := h.opened k hnam.status
    refine ⟨⟨hopen.lt, hopen.window, hnam.handle.symm.trans hopen.handle, ?_⟩, rfl, rfl⟩
    intro j hj hsame
    obtain rfl := h.distinct j k hj hnam.status hsame
    exact ⟨rfl, hnam.spCtx⟩
  | _ => first
    | exact ⟨hkept href, rfl, rfl⟩
    | simp [ref] at href

/-! ### Moves and the counts -/

/-- What a move adds to the count of a handle, it adds to the requests and calls that are counted
there. -/
theorem Inv.active_move (k : Fin n) :
    ((s.apply e).handles k).numActiveRequests.toNat + s.undelivered.countP (·.slot = k) +
        (if pc.slot = some k then 1 else 0) =
      (s.handles k).numActiveRequests.toNat + (s.apply e).undelivered.countP (·.slot = k) +
        (if nxt.pc.slot = some k then 1 else 0) := by
  cases hm with
  | openPoll j sp clientId hcl =>
    obtain rfl | hne := eq_or_ne k j
    · simp [h.closed k hcl, SpciHandle.zero]
    · simp [hne]
  | close j hact =>
    obtain rfl | hne := eq_or_ne k j
    · simp [hact, SpciHandle.zero]
    · simp [hne]
  | blocking j sp key _ hact =>
    obtain rfl | hne := eq_or_ne k j
    · simp [hact]
      omega
    · simp [hne, hne.symm]
  | start j sp key _ hact =>
    obtain rfl | hne := eq_or_ne k j
    · simp [toNat_add_one hact]
      omega
    · simp [hne, hne.symm]
  | startPush =>
    simp [countP_cons]
    omega
  | getFound from_ j openedAt sp key readSp values hfd =>
    obtain ⟨r, -, -, hslot, -, hall⟩ := h.delivered hpc hfd
    have := hall (·.slot = k)
    simp [hslot] at this ⊢
    omega
  | release readSp j =>
    obtain rfl | hne := eq_or_ne k j
    · have hpos : 0 < (s.handles k).numActiveRequests.toNat := by
        have hpos : 0 < tally slot s.pc k := tally_pos (by rw [hpc]; rfl)
        have := h.active k
        omega
      have := toNat_sub_one hpos
      simp
      omega
    · simp [hne, hne.symm]
  | _ =>
    simp [After.slot]

/-- The same for the count of a partition. -/
theorem Inv.requests_move (sp : Sp) :
    ((s.apply e).partitions sp).requestCount.toNat + s.undelivered.countP (·.sp = sp) +
        (if pc.charged = some sp then 1 else 0) =
      (s.partitions sp).requestCount.toNat + (s.apply e).undelivered.countP (·.sp = sp) +
        (if nxt.pc.charged = some sp then 1 else 0) := by
  cases hm with
  | blocking k sp' key _ _ hcnt =>
    obtain rfl | hne := eq_or_ne sp sp'
    · simp [hcnt]
      omega
    · simp [hne, hne.symm]
  | start k sp' key _ _ hcnt =>
    obtain rfl | hne := eq_or_ne sp sp'
    · simp [toNat_add_one hcnt]
      omega
    · simp [hne, hne.symm]
  | startPush k sp' key =>
    rw [apply_requestCount rfl]
    simp [countP_cons]
    omega
  | getFound from_ k openedAt sp' key readSp values hfd =>
    obtain ⟨r, -, -, -, hsp, hall⟩ := h.delivered hpc hfd
    have := hall (·.sp = sp)
    simp [hsp] at this ⊢
    omega
  | release readSp k sp' sp'' values hsp =>
    have hheld := (h.held cpu k sp' (by rw [hpc]; rfl)).2
    obtain rfl : sp'' = sp' := by
      rcases hsp with rfl | hsp
      · rfl
      · exact some.inj (hsp.symm.trans hheld)
    simp
  | decrease sp' =>
    obtain rfl | hne := eq_or_ne sp sp'
    · have hpos : 0 < (s.partitions sp).requestCount.toNat := by
        have hpos : 0 < tally charged s.pc sp := tally_pos (by rw [hpc]; rfl)
        have := h.requests sp
        omega
      have := toNat_sub_one hpos
      simp
      omega
    · simp [hne, hne.symm]
  | pop =>
    rw [apply_requestCount rfl]
    rfl
  | _ =>
    rw [apply_requestCount rfl]
    simp [After.slot]

/-- What a move adds to the calls in a partition, it makes of its state. -/
theorem Inv.owners_move (sp : Sp) : (if ((s.apply e).partitions sp).state = .busy then 1 else 0) +
        (if pc.owner = some sp then 1 else 0) =
      (if (s.partitions sp).state = .busy then 1 else 0) +
        (if nxt.pc.owner = some sp then 1 else 0) := by
  -- The partition of the move is switched to busy with a call that enters it, or back.
  have hent : ∀ sp', (s.partitions sp').state = .idle →
      (if ((s.apply (.setState sp' .busy)).partitions sp).state = .busy then 1 else 0) =
        (if (s.partitions sp).state = .busy then 1 else 0) +
          (if some sp' = some sp then 1 else 0) := by
    intro sp' hidle
    obtain rfl | hne := eq_or_ne sp sp'
    · simp [hidle]
    · simp [hne, hne.symm]
  have hlea : ∀ sp', (s.partitions sp').state = .busy →
      (if ((s.apply (.setState sp' .idle)).partitions sp).state = .busy then 1 else 0) +
          (if some sp' = some sp then 1 else 0) =
        if (s.partitions sp).state = .busy then 1 else 0 := by
    intro sp' hbusy
    obtain rfl | hne := eq_or_ne sp sp'
    · simp [hbusy]
    · simp [hne, hne.symm]
  cases hm with
  | blockingWait k sp' key hidle | startEnters sp' token hidle => exact hent sp' hidle
  | resumeEnters k openedAt sp' key hidle => exact hent sp' hidle
  | blockingIdle sp' | startIdle sp' => exact hlea sp' (h.busy_of_owner (by rw [hpc]; rfl))
  | resumeIdle sp' => exact hlea sp' (h.busy_of_owner (by rw [hpc]; rfl))
  | _ =>
    rw [apply_state rfl]
    rfl

/-- A blocking message is sent by the call that enters the partition, and answered to it. -/
theorem Inv.blocking_move (sp : Sp) :
    ((s.apply e).partitions sp).blocking + (if pc.inBlocking = some sp then 1 else 0) =
      (s.partitions sp).blocking + (if nxt.pc.inBlocking = some sp then 1 else 0) := by
  cases hm with
  | blockingPush k sp' =>
    obtain rfl | hne := eq_or_ne sp sp'
    · simp [blocking_push_blocking]
    · simp [hne, hne.symm]
  | startPush k sp' key =>
    exact congrArg (· + _)
      (update_part SpContext.blocking (blocking_push_nonBlocking (s.partitions sp') key))
  | pop pc sp' q _ hq =>
    exact congrArg (· + _) (update_part SpContext.blocking (blocking_pop hq))
  | blockingAnswer k sp' key values hmem =>
    have hone := blocking_answer hmem
    obtain rfl | hne := eq_or_ne sp sp'
    · simpa [apply, setPartition, Next.pc, inBlocking] using hone
    · simp [hne, hne.symm]
  | answer sp' q key values after hmem =>
    obtain rfl := h.nonBlocking_of_entry hpc hmem
    exact congrArg (· + _) (update_part SpContext.blocking (blocking_answer hmem))
  | _ =>
    rw [apply_blocking rfl]
    rfl

/-- Messages are sent with a request, and become responses. -/
theorem Inv.messages_move (key : Key) : (∑ sp, ((s.apply e).partitions sp).messages key) +
        (if nxt.pc.transit = some key then 1 else 0) + (s.apply e).responses.countP (·.1 = key) +
        s.undelivered.countP (·.key = key) =
      (∑ sp, (s.partitions sp).messages key) + (if pc.transit = some key then 1 else 0) +
        s.responses.countP (·.1 = key) + (s.apply e).undelivered.countP (·.key = key) := by
  cases hm with
  | blockingPush k sp key' =>
    have := sum_messages_setPartition (s := s) sp ((s.partitions sp).push .blocking key') key
    simp only [apply, Next.pc, transit, add_right_cancel this]
    rfl
  | startPush k sp key' =>
    have := sum_messages_setPartition (s := s) sp ((s.partitions sp).push .nonBlocking key') key
    rw [messages_push_nonBlocking] at this
    simp only [apply, Next.pc, transit, countP_cons, decide_eq_true_eq,
      setPartition, reduceCtorEq, if_false] at this ⊢
    omega
  | pop pc sp q _ hq =>
    have := sum_messages_setPartition (s := s) sp ((s.partitions sp).pop q) key
    rw [messages_pop key hq] at this
    simp only [apply, Next.pc, add_right_cancel this]
    rfl
  | blockingAnswer k sp key' values hmem =>
    have hans := messages_answer key hmem
    have := sum_messages_setPartition (s := s) sp
      { s.partitions sp with received := (s.partitions sp).received.erase (.blocking, key') } key
    simp only [apply, Next.pc, transit, setPartition, reduceCtorEq, false_and,
      if_false] at this hans ⊢
    omega
  | answer sp q key' values after hmem =>
    obtain rfl := h.nonBlocking_of_entry hpc hmem
    have hans := messages_answer key hmem
    have := sum_messages_setPartition (s := s) sp
      { s.partitions sp with
        received := (s.partitions sp).received.erase (.nonBlocking, key') } key
    simp only [apply, Next.pc, transit, setPartition, true_and,
      some.injEq, reduceCtorEq, if_false] at this hans ⊢
    omega
  | responseAdd =>
    simp [countP_cons]
    omega
  | getFound from_ k openedAt sp key' readSp values hfd =>
    obtain ⟨r, -, hkey, -, -, hall⟩ := h.delivered hpc hfd
    obtain ⟨resp, hresp, -⟩ := map_eq_some_iff.mp hfd
    have hmat := find?_some hresp
    have hmem : ∃ resp ∈ s.responses, decide (resp.1 = key') = true :=
      ⟨resp, mem_of_find?_eq_some hresp, hmat⟩
    obtain ⟨resp', -, hkey', hall'⟩ := countP_eraseP hmem
    have hreq := hall (·.key = key)
    have hsto := hall' (·.1 = key)
    simp [hkey] at hreq hsto hkey' ⊢
    rw [hkey'] at hsto
    omega
  | noResponse sp exit after hexit => rcases hexit with rfl | rfl <;> rfl
  | leave sp exit after hexit => rcases hexit with rfl | rfl <;> rfl
  | _ =>
    rw [sum_messages_apply key rfl]
    rfl

end

variable [DecidableEq Cpu] in
theorem Inv.refs_move (h : Inv s) (hm : Move s (s.pc cpu) e nxt) {cpu' : Cpu}
    (href : (update s.pc cpu nxt.pc cpu').ref = some r) : (s.apply e).RefOk r := by
  obtain rfl | hne := eq_or_ne cpu' cpu
  · rw [update_self] at href
    obtain ⟨hok, -, hop⟩ := h.ref_move rfl hm href
    exact refOk_apply hm hok (hop.trans_le hok.window)
  · rw [update_of_ne hne] at href
    have hok := h.refs cpu' r href
    refine refOk_apply hm hok ?_
    rcases apply_opens hm with ⟨hop, -⟩ | ⟨k, sp, clientId, rfl, -, -, hrefs⟩
    · exact hop.trans_le hok.window
    · exact hrefs cpu' r href

/-! ### Errors -/

/-- Such a call has added nothing to the counts. -/
theorem Inv.net_zero (h : Inv s)
    (hnet : s.pc cpu ≠ .idle ∧ net = s.net cpu ∨ s.pc cpu = .idle ∧ net = ⟨0, 0⟩)
    (hmove : (s.pc cpu = .idle ∨ ∃ r, (s.pc cpu).ref = some r) ∧ e.net = ⟨0, 0⟩) :
    net.add e.net = ⟨0, 0⟩ := by
  obtain ⟨hpc, he⟩ := hmove
  have hzero : net = ⟨0, 0⟩ := by
    rcases hnet with ⟨hne, rfl⟩ | ⟨-, hzero⟩
    · obtain ⟨r, href⟩ := hpc.resolve_left hne
      exact h.net cpu r href
    · exact hzero
  rw [hzero, he]
  rfl

/-! ### Runs -/

variable [DecidableEq Cpu] in
/-- **One move.** -/
theorem Inv.exec (h : Inv s) (hm : Move s (s.pc cpu) e nxt)
    (hnet : s.pc cpu ≠ .idle ∧ net = s.net cpu ∨ s.pc cpu = .idle ∧ net = ⟨0, 0⟩) :
    Inv (s.exec cpu net e nxt) := by
  rw [exec_eq]
  exact {
    handleCount := h.handleCount_move hm
    closed := fun k hstat => h.closed_move rfl hm hstat
    opened := fun k hstat => by
      obtain ⟨hlt, hwin, hhd⟩ := h.openOk_move hm hstat
      exact ⟨hlt, hwin, hhd⟩
    distinct := fun j k hj hk hsame => h.distinct_move hm hj hk hsame
    accepted := fun r hr => by
      obtain ⟨hstat, hsp, hhd, hcli⟩ := h.accepted_move rfl hm hr
      exact ⟨hstat, hsp, hhd, hcli⟩
    held := fun cpu' k sp hheld => by
      dsimp only at hheld
      have hwas : e.rewrites ≠ some k ∧ (s.handles k).status = .opened ∧
          (s.handles k).spCtx = some sp := by
        obtain rfl | hne := eq_or_ne cpu' cpu
        · rw [update_self] at hheld
          exact ⟨hm.rewrites_of_held hheld, h.held_move rfl hm hheld⟩
        · rw [update_of_ne hne] at hheld
          exact ⟨h.rewrites_of_held hm hheld, h.held cpu' k sp hheld⟩
      obtain ⟨hk, hstat, hsp⟩ := hwas
      have hsame := apply_sameHandle (s := s) hk
      exact ⟨hsame.status.trans hstat, hsame.spCtx.trans hsp⟩
    startPush := fun cpu' k sp key hpc => by
      have hnam : (s.apply e).Names k sp key := by
        dsimp only at hpc
        obtain rfl | hne := eq_or_ne cpu' cpu
        · rw [update_self] at hpc
          exact names_apply (hm.names_of_startPush hpc) (hm.rewrites_of_held (by rw [hpc]; rfl))
        · rw [update_of_ne hne] at hpc
          exact names_apply (h.startPush cpu' k sp key hpc)
            (h.rewrites_of_held hm (by rw [hpc]; rfl))
      exact ⟨hnam.status, hnam.spCtx, hnam.handle, hnam.clientId⟩
    refs := fun cpu' r href => by
      obtain ⟨hlt, hwin, hhd, hsame⟩ := h.refs_move hm href
      exact ⟨hlt, hwin, hhd, hsame⟩
    active := fun k => by
      have hmove := h.active_move rfl hm k
      have hcnt := h.active k
      have htal := tally_update slot s.pc cpu nxt.pc k
      dsimp only
      omega
    requests := fun sp => by
      have hmove := h.requests_move rfl hm sp
      have hcnt := h.requests sp
      have htal := tally_update charged s.pc cpu nxt.pc sp
      dsimp only
      omega
    owners := fun sp => by
      have hmove := h.owners_move rfl hm sp
      have hcnt := h.owners sp
      have htal := tally_update owner s.pc cpu nxt.pc sp
      dsimp only
      omega
    blocking := fun sp => by
      have hmove := h.blocking_move rfl hm sp
      have hcnt := h.blocking sp
      have htal := tally_update inBlocking s.pc cpu nxt.pc sp
      dsimp only
      omega
    messages := fun key => by
      have hmove := h.messages_move rfl hm key
      have hcnt := h.messages key
      have htal := tally_update transit s.pc cpu nxt.pc key
      dsimp only
      omega
    net := fun cpu' r href => by
      dsimp only at href ⊢
      obtain rfl | hne := eq_or_ne cpu' cpu
      · rw [update_self] at href ⊢
        exact h.net_zero hnet (hm.net_of_ref href)
      · rw [update_of_ne hne] at href ⊢
        exact h.net cpu' r href
    errors := fun ret hret err herr => by
      cases nxt with
      | goto =>
        have hret : ret ∈ (s.apply e).returns := hret
        rw [apply_returns] at hret
        exact h.errors ret hret err herr
      | ret =>
        rcases mem_cons.mp hret with rfl | hret
        · exact h.net_zero hnet (hm.net_of_error (congrArg Next.ret herr))
        · exact h.errors ret hret err herr }

variable [DecidableEq Cpu] in
/-- What the counters are to be when no call is in progress. -/
structure Counted (cfg : Config Uuid Sp) (s : State n Sp Cpu) : Prop where
  handles : ∀ k, (s.handles k).status = .opened →
    (s.handles k).numActiveRequests.toNat = s.undelivered.countP (·.slot = k)
  partitions : ∀ sp, (s.partitions sp).requestCount.toNat =
    ∑ k, if (s.handles k).spCtx = some sp then (s.handles k).numActiveRequests.toNat else 0
  /-- A handle whose requests have all been answered can be closed. -/
  closable : ∀ k cpu, (s.handles k).status = .opened → (∀ r ∈ s.undelivered, r.slot ≠ k) →
    step cfg s (.call cpu (.close (s.handles k).clientId (s.handles k).handle)) =
      some (s.exec cpu ⟨0, 0⟩ (.closeHandle k) (.ret .closed))

omit [Fintype Sp] [Fintype Cpu] in
/-- The requests for a partition are those of its handles. -/
theorem countP_sp_eq_sum (sp : Sp) {requests : List (Request n Sp)}
    (h : ∀ r ∈ requests, (handles r.slot).spCtx = some r.sp) :
    requests.countP (·.sp = sp) =
      ∑ k, if (handles k).spCtx = some sp then requests.countP (·.slot = k) else 0 := by
  induction requests with
  | nil => simp
  | cons r requests ih =>
    have hone : ∀ k, (if (handles k).spCtx = some sp then (if r.slot = k then 1 else 0) else 0) =
        if r.slot = k then (if r.sp = sp then 1 else 0) else 0 := by
      intro k
      obtain rfl | hk := eq_or_ne r.slot k
      · simp [h r mem_cons_self]
      · simp [hk]
    have hspl : ∀ k, (if (handles k).spCtx = some sp then
          (r :: requests).countP (·.slot = k) else 0) =
        (if (handles k).spCtx = some sp then requests.countP (·.slot = k) else 0) +
          if r.slot = k then (if r.sp = sp then 1 else 0) else 0 := by
      intro k
      rw [← hone k]
      by_cases hk : (handles k).spCtx = some sp
      · simp [hk, countP_cons]
      · simp [hk]
    rw [countP_cons, ih fun r' hr' => h r' (mem_cons_of_mem r hr'),
      Finset.sum_congr rfl fun k _ => hspl k, Finset.sum_add_distrib]
    simp

/-- The client of an open handle finds it. -/
theorem Inv.spciHandleInfoGet_self (h : Inv s) (hstat : (s.handles k).status = .opened) :
    s.spciHandleInfoGet (s.handles k).handle (s.handles k).clientId = some k := by
  cases hfind : s.spciHandleInfoGet (s.handles k).handle (s.handles k).clientId with
  | none =>
    have := find?_eq_none.mp hfind k (mem_finRange k)
    simp [hstat] at this
  | some j =>
    obtain ⟨hj, hhd, -⟩ := spciHandleInfoGet_some hfind
    have hjok := h.opened j hj
    have hkok := h.opened k hstat
    rw [h.distinct j k hj hstat (openedAt_eq hjok.lt hjok.window hkok.lt hkok.window ?_)]
    rw [← hjok.handle, hhd, hkok.handle]

variable [DecidableEq Cpu] in
theorem Inv.counted (h : Inv s) (cfg : Config Uuid Sp) (hidle : ∀ cpu, s.pc cpu = .idle) :
    Counted cfg s := by
  have hact : ∀ k, (s.handles k).numActiveRequests.toNat = s.undelivered.countP (·.slot = k) := by
    intro k
    rw [h.active k, tally_eq_zero fun cpu => by simp [hidle cpu], add_zero]
  refine ⟨fun k _ => hact k, fun sp => ?_, fun k cpu hstat hnone => ?_⟩
  · rw [h.requests sp, tally_eq_zero fun cpu => by simp [hidle cpu],
      add_zero, countP_sp_eq_sum sp fun r hr => (h.accepted r hr).spCtx]
    simp only [hact]
  · have hzero : (s.handles k).numActiveRequests = 0 := by
      rw [← UInt32.toNat_inj, hact k]
      exact countP_eq_zero.mpr fun r hr => by simp [hnone r hr]
    rw [step, if_pos (hidle cpu), call, h.spciHandleInfoGet_self hstat]
    simp [hzero]

end

variable [DecidableEq Cpu] in
/-- **The counters are exact.** In every run in which no handle value in use is given out again, no
counter overflows, requests are started only when there is room for them, and a partition answers
the blocking request that it has been entered for: a call that returns an error has not changed the
counters, and whenever no call is in progress, they count the requests whose response has not been
handed out. -/
theorem request_counts_exact [Fintype Sp] [Fintype Cpu] (cfg : Config Uuid Sp)
    (labels : List (Label Cpu Uuid)) (s : State n Sp Cpu)
    (halong : Along (step cfg) (Admissible cfg) (init : State n Sp Cpu) labels)
    (hrun : run (step cfg) init labels = some s) :
    (∀ ret ∈ s.returns, ∀ err, ret.ret = .error err → ret.net = ⟨0, 0⟩) ∧
      ((∀ cpu, s.pc cpu = .idle) → Counted cfg s) := by
  have hinv : Inv s := by
    refine run_invariant_along (fun s label s' (h : Inv s) hok hstep => ?_) inv_init halong hrun
    obtain ⟨cpu, net, e, nxt, hm, rfl, hnet⟩ := step_move hstep hok
    exact h.exec hm hnet
  exact ⟨hinv.errors, hinv.counted cfg⟩

/-- One service, and room for one message in each queue. -/
def oneMessage : Config Unit Unit := ⟨fun _ => some (), fun _ => 1, 4⟩

/-- A request is started and the partition takes it; a second one is started while the partition
still works on the first; and then the first one is resumed, and answered. -/
def startTwice : List (Label Unit Unit) :=
  [.call () (.openPoll () 7), .call () (.requestStart 7 0), .advance (), .advance (),
    .pop () .nonBlocking, .exit () .preempted, .advance (), .advance (),
    .call () (.requestStart 7 0), .advance (), .advance (), .exit () .yield, .advance (),
    .advance (), .call () (.requestResume 7 0 0), .advance (), .advance (),
    .exit () (.putResponse .nonBlocking ⟨7, 0, 0⟩ ⟨1, 2, 3⟩), .advance (), .advance (),
    .advance (), .advance (), .advance ()]

theorem request_counts_exact_two :
    ∃ s : State 1 Unit Unit, run (step oneMessage) init startTwice = some s ∧
      s.returns.length = 4 ∧ (s.handles 0).numActiveRequests = 1 ∧ Counted oneMessage s := by
  have hal : Along (step oneMessage) (Admissible oneMessage)
      (init : State 1 Unit Unit) startTwice := by
    decide +kernel
  refine exists_some_imp (q := fun s => s.pc () = .idle ∧ s.returns.length = 4 ∧
    (s.handles 0).numActiveRequests = 1) (by decide +kernel)
    fun s hrun ⟨hidle, hret, hact⟩ => ⟨hret, hact, ?_⟩
  exact (request_counts_exact oneMessage startTwice s hal hrun).2 fun _ => hidle

variable [DecidableEq Cpu] in
/-- **Calls are kept apart.** In such a run, no two calls are in one partition; the handle of a
request that waits for its response stays open; and no message or response is without a request. -/
theorem calls_kept_apart [Fintype Sp] [Fintype Cpu] (cfg : Config Uuid Sp)
    (labels : List (Label Cpu Uuid)) (s : State n Sp Cpu)
    (halong : Along (step cfg) (Admissible cfg) (init : State n Sp Cpu) labels)
    (hrun : run (step cfg) init labels = some s) :
    (∀ sp cpu cpu', (s.pc cpu).owner = some sp → (s.pc cpu').owner = some sp → cpu = cpu') ∧
    (∀ r ∈ s.undelivered, s.Names r.slot r.sp r.key) ∧
    ∀ key, (∑ sp, (s.partitions sp).messages key) + s.responses.countP (·.1 = key) ≤
      s.undelivered.countP (·.key = key) := by
  have hinv : Inv s := by
    refine run_invariant_along (fun s label s' (h : Inv s) hok hstep => ?_) inv_init halong hrun
    obtain ⟨cpu, net, e, nxt, hm, rfl, hnet⟩ := step_move hstep hok
    exact h.exec hm hnet
  refine ⟨fun sp cpu cpu' hown hown' => ?_, hinv.accepted, fun key => ?_⟩
  · refine tally_unique ?_ hown hown'
    rw [hinv.owners sp]
    split <;> omega
  · exact (Nat.add_le_add_right (Nat.le_add_right _ _) _).trans (hinv.messages key)

theorem calls_kept_apart_two :
    ∃ s : State 1 Unit Unit, run (step oneMessage) init startTwice = some s ∧
      ∀ r ∈ s.undelivered, s.Names r.slot r.sp r.key :=
  exists_some_imp (q := fun _ => True) (by decide +kernel) fun s hrun _ =>
    (calls_kept_apart oneMessage startTwice s (by decide +kernel) hrun).2.1

/-- A request is started, and the partition yields without taking it. So there is no room for a
second one. Then the first one is resumed, taken and answered. -/
def startWhenFull : List (Label Unit Unit) :=
  [.call () (.openPoll () 7), .call () (.requestStart 7 0), .advance (), .advance (),
    .exit () .yield, .advance (), .advance (), .call () (.requestStart 7 0), .advance (),
    .call () (.requestResume 7 0 0), .advance (), .advance (), .pop () .nonBlocking,
    .exit () (.putResponse .nonBlocking ⟨7, 0, 0⟩ ⟨1, 2, 3⟩), .advance (), .advance (),
    .advance (), .advance (), .advance ()]

/-- `SPCI_NO_MEMORY` leaves both counters one too high. When all responses have been handed out,
the handle still has an active request, and it can not be closed. -/
theorem counted_when_queue_full :
    ∃ s : State 1 Unit Unit, run (step oneMessage) init startWhenFull = some s ∧
      s.pc () = .idle ∧ (∃ ret ∈ s.returns, ret.ret = .error .noMemory ∧ ret.net = ⟨1, 1⟩) ∧
      s.undelivered = [] ∧ (s.handles 0).status = .opened ∧
      (s.handles 0).numActiveRequests = 1 ∧ (s.partitions ()).requestCount = 1 ∧
      call oneMessage s (.close 7 0) = fail .busy := by
  refine exists_some_imp (q := fun s => (s.pc () = .idle ∧
    (∃ ret ∈ s.returns, ret.ret = .error .noMemory ∧ ret.net = ⟨1, 1⟩) ∧
    s.undelivered = [] ∧ (s.handles 0).status = .opened ∧
    (s.handles 0).numActiveRequests = 1 ∧ (s.partitions ()).requestCount = 1) ∧
    s.spciHandleInfoGet 0 7 = some 0) (by decide +kernel) fun s _ ⟨hend, hfind⟩ => ?_
  obtain ⟨hidle, herr, hnone, hopen, hact, hcnt⟩ := hend
  refine ⟨hidle, herr, hnone, hopen, hact, hcnt, ?_⟩
  rw [call, hfind]
  simp [hact]

end TrustedFirmware.Spm.Spci
