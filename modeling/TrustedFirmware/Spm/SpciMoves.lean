import TrustedFirmware.Spm.Spci

/-!
# What the SPCI calls can do

`Move` lists the moves of a CPU, with what is known of the state in which it makes them: every step
is one of them, as long as the step is `Admissible`. What a call stands for, by where it is, is read
off its `Pc`: the handle and the partition whose counts it has increased, the partition that it is
in, the response that it carries, and the handle that it has looked up without counting itself
there.
-/

namespace TrustedFirmware.Spm.Spci

open Lib Spm.Responses Option Prod

variable {n : Nat} {Sp Cpu Uuid : Type} {err : SpciError}

/-! ### What a call stands for -/

/-- A handle that a call has looked up: the entry, which of the handles opened so far it was, and
the partition and the request that it was looked up for. -/
structure HandleRef (n : Nat) (Sp : Type) where
  slot : Fin n
  openedAt : Nat
  sp : Sp
  key : Key

def After.slot : After n → Option (Fin n)
  | .blocking k _ => some k
  | .start _ | .resume _ _ _ => none

def After.ref (sp : Sp) : After n → Option (HandleRef n Sp)
  | .resume k openedAt key => some ⟨k, openedAt, sp, key⟩
  | .blocking _ _ | .start _ => none

/-- The counts that include the call itself. -/
def Pc.held : Pc n Sp → Option (Fin n × Sp)
  | .blockingWait k sp _ | .blockingPush k sp _ | .blockingEntry k sp | .startPush k sp _
  | .release _ k sp _ => some (k, sp)
  | .entry sp after | .returned sp _ after | .setIdle sp after => after.slot.map (·, sp)
  | .idle | .startSwitch _ _ | .resumeSwitch _ _ _ _ | .get _ _ _ _ _ | .decrease _ _ => none

/-- The handle whose count includes the call. -/
def Pc.slot (pc : Pc n Sp) : Option (Fin n) := pc.held.map fst

/-- The partition whose count includes the call. -/
def Pc.charged : Pc n Sp → Option Sp
  | .decrease sp _ => some sp
  | pc => pc.held.map snd

/-- The partition that the call has switched to `SP_STATE_BUSY`. -/
def Pc.owner : Pc n Sp → Option Sp
  | .blockingPush _ sp _ | .blockingEntry _ sp | .entry sp _ | .returned sp _ _
  | .setIdle sp _ => some sp
  | .idle | .blockingWait _ _ _ | .startPush _ _ _ | .startSwitch _ _ | .resumeSwitch _ _ _ _
  | .get _ _ _ _ _ | .release _ _ _ _ | .decrease _ _ => none

/-- The partition that has a blocking request of the call. -/
def Pc.inBlocking : Pc n Sp → Option Sp
  | .blockingEntry _ sp => some sp
  | _ => none

/-- The response that the call is about to store. -/
def Pc.transit : Pc n Sp → Option Key
  | .returned _ (.putResponse _ key _) _ => some key
  | _ => none

/-- The handle that the call has looked up. -/
def Pc.ref : Pc n Sp → Option (HandleRef n Sp)
  | .get _ k openedAt sp key | .resumeSwitch k openedAt sp key => some ⟨k, openedAt, sp, key⟩
  | .entry sp after | .returned sp _ after | .setIdle sp after => after.ref sp
  | .idle | .blockingWait _ _ _ | .blockingPush _ _ _ | .blockingEntry _ _ | .startPush _ _ _
  | .startSwitch _ _ | .release _ _ _ _ | .decrease _ _ => none

/-- Where the CPU is afterwards. -/
def Next.pc : Next n Sp → Pc n Sp
  | .goto pc => pc
  | .ret _ => .idle

/-! ### Admissible steps -/

/-- There is room in the queue for the request that is about to be sent. -/
def Pc.hasRoom (cfg : Config Uuid Sp) (s : State n Sp Cpu) : Pc n Sp → Bool
  | .startPush _ sp _ =>
    ((s.partitions sp).queue .nonBlocking).length < cfg.queueCapacity .nonBlocking
  | _ => true

/-- The partition has been entered for an answer from this queue. -/
def Pc.awaits (q : QueueNum) : Pc n Sp → Bool
  | .blockingEntry _ _ => q = .blocking
  | _ => true

/-- No value of a handle that is open, or that a call refers to, is given out again; the counts do
not overflow; a request is started only when there is room for it; and the partition that has been
entered for a blocking request answers that one. -/
def Admissible (cfg : Config Uuid Sp) (s : State n Sp Cpu) : Label Cpu Uuid → Prop
  | .call _ (.openPoll _ _) =>
    (∀ k, (s.handles k).status = .opened → s.opens < s.openedAt k + 2 ^ 16) ∧
      ∀ cpu, ∀ r ∈ (s.pc cpu).ref, s.opens < r.openedAt + 2 ^ 16
  | .call _ (.requestStart clientId handle) =>
    ∀ k ∈ s.spciHandleInfoGet handle clientId, (s.handles k).numActiveRequests.toNat + 1 < 2 ^ 32 ∧
        ∀ sp ∈ (s.handles k).spCtx, (s.partitions sp).requestCount.toNat + 1 < 2 ^ 32
  | .advance cpu => (s.pc cpu).hasRoom cfg s = true
  | .exit cpu (.putResponse q _ _) => (s.pc cpu).awaits q = true
  | _ => True

instance decidableAdmissible [Fintype Cpu] (cfg : Config Uuid Sp) (s : State n Sp Cpu) :
    ∀ label, Decidable (Admissible cfg s label)
  | .call _ (.openPoll _ _) =>
    inferInstanceAs (Decidable
      ((∀ k, (s.handles k).status = .opened → s.opens < s.openedAt k + 2 ^ 16) ∧
        ∀ cpu, ∀ r ∈ (s.pc cpu).ref, s.opens < r.openedAt + 2 ^ 16))
  | .call _ (.requestStart clientId handle) =>
    inferInstanceAs (Decidable (∀ k ∈ s.spciHandleInfoGet handle clientId,
      (s.handles k).numActiveRequests.toNat + 1 < 2 ^ 32 ∧
        ∀ sp ∈ (s.handles k).spCtx, (s.partitions sp).requestCount.toNat + 1 < 2 ^ 32))
  | .advance cpu => inferInstanceAs (Decidable ((s.pc cpu).hasRoom cfg s = true))
  | .exit cpu (.putResponse q _ _) => inferInstanceAs (Decidable ((s.pc cpu).awaits q = true))
  | .call _ (.close _ _) | .call _ (.requestBlocking _ _) | .call _ (.requestResume _ _ _)
  | .call _ (.getResponse _ _ _) | .pop _ _ | .exit _ .yield | .exit _ .preempted =>
    isTrue trivial

/-! ### Moves -/

/-- An open handle with a partition, as a request names it. -/
structure State.Names (s : State n Sp Cpu) (k : Fin n) (sp : Sp) (key : Key) : Prop where
  status : (s.handles k).status = .opened
  spCtx : (s.handles k).spCtx = some sp
  handle : (s.handles k).handle = key.handle
  clientId : (s.handles k).clientId = key.clientId

/-- What a CPU does that is at a given place. -/
inductive Move (s : State n Sp Cpu) : Pc n Sp → Effect n Sp → Next n Sp → Prop
  | callFails (e : SpciError) : Move s .idle .skip (.ret (.error e))
  | openPoll (k : Fin n) (sp : Sp) (clientId : UInt16)
      (hclosed : (s.handles k).status = .closed)
      (hopen : ∀ j, (s.handles j).status = .opened → s.opens < s.openedAt j + 2 ^ 16)
      (hrefs : ∀ cpu, ∀ r ∈ (s.pc cpu).ref, s.opens < r.openedAt + 2 ^ 16) :
      Move s .idle (.openHandle k sp clientId) (.ret (.opened s.handleCount))
  | close (k : Fin n) (hactive : (s.handles k).numActiveRequests = 0) :
      Move s .idle (.closeHandle k) (.ret .closed)
  | blocking (k : Fin n) (sp : Sp) (key : Key) (hnames : s.Names k sp key)
      (hactive : (s.handles k).numActiveRequests = 0)
      (hcount : (s.partitions sp).requestCount = 0) :
      Move s .idle (.accept k sp) (.goto (.blockingWait k sp key))
  | start (k : Fin n) (sp : Sp) (key : Key) (hnames : s.Names k sp key)
      (hactive : (s.handles k).numActiveRequests.toNat + 1 < 2 ^ 32)
      (hcount : (s.partitions sp).requestCount.toNat + 1 < 2 ^ 32) :
      Move s .idle (.acceptToken k sp) (.goto (.startPush k sp key))
  | lookUp (from_ : GetFrom) (k : Fin n) (sp : Sp) (key : Key) (hnames : s.Names k sp key) :
      Move s .idle .skip (.goto (.get from_ k (s.openedAt k) sp key))
  | blockingWait (k : Fin n) (sp : Sp) (key : Key) (hidle : (s.partitions sp).state = .idle) :
      Move s (.blockingWait k sp key) (.setState sp .busy) (.goto (.blockingPush k sp key))
  | blockingPush (k : Fin n) (sp : Sp) (key : Key) :
      Move s (.blockingPush k sp key) (.pushBlocking sp key) (.goto (.blockingEntry k sp))
  | startPush (k : Fin n) (sp : Sp) (key : Key) :
      Move s (.startPush k sp key) (.pushNonBlocking k sp key) (.goto (.startSwitch sp key.token))
  | startEnters (sp : Sp) (token : UInt32) (hidle : (s.partitions sp).state = .idle) :
      Move s (.startSwitch sp token) (.setState sp .busy) (.goto (.entry sp (.start token)))
  | startReturns (sp : Sp) (token : UInt32) :
      Move s (.startSwitch sp token) .skip (.ret (.started token))
  | resumeEnters (k : Fin n) (openedAt : Nat) (sp : Sp) (key : Key)
      (hidle : (s.partitions sp).state = .idle) :
      Move s (.resumeSwitch k openedAt sp key) (.setState sp .busy)
        (.goto (.entry sp (.resume k openedAt key)))
  | resumeQueued (k : Fin n) (openedAt : Nat) (sp : Sp) (key : Key) :
      Move s (.resumeSwitch k openedAt sp key) .skip (.ret (.error .queued))
  | responseAdd (sp : Sp) (q : QueueNum) (key : Key) (values : Values) (after : After n) :
      Move s (.returned sp (.putResponse q key values) after) (.responseAdd key values)
        (.goto (.setIdle sp after))
  | noResponse (sp : Sp) (exit : SpExit) (after : After n)
      (hexit : exit = .yield ∨ exit = .preempted) :
      Move s (.returned sp exit after) .skip (.goto (.setIdle sp after))
  | blockingIdle (sp : Sp) (k : Fin n) (values : Values) :
      Move s (.setIdle sp (.blocking k values)) (.setState sp .idle)
        (.goto (.release false k sp values))
  | startIdle (sp : Sp) (token : UInt32) :
      Move s (.setIdle sp (.start token)) (.setState sp .idle) (.ret (.started token))
  | resumeIdle (sp : Sp) (k : Fin n) (openedAt : Nat) (key : Key) :
      Move s (.setIdle sp (.resume k openedAt key)) (.setState sp .idle)
        (.goto (.get .resumeAgain k openedAt sp key))
  | getFound (from_ : GetFrom) (k : Fin n) (openedAt : Nat) (sp : Sp) (key : Key)
      (readSp : Bool) (values : Values)
      (hfound : spmResponseGet s.responses key = some values) :
      Move s (.get from_ k openedAt sp key) (.responseGet key) (.goto (.release readSp k sp values))
  | getSwitches (from_ : GetFrom) (k : Fin n) (openedAt : Nat) (sp : Sp) (key : Key) :
      Move s (.get from_ k openedAt sp key) .skip (.goto (.resumeSwitch k openedAt sp key))
  | getQueued (from_ : GetFrom) (k : Fin n) (openedAt : Nat) (sp : Sp) (key : Key) :
      Move s (.get from_ k openedAt sp key) .skip (.ret (.error .queued))
  | release (readSp : Bool) (k : Fin n) (sp sp' : Sp) (values : Values)
      (hsp : sp' = sp ∨ (s.handles k).spCtx = some sp') :
      Move s (.release readSp k sp values) (.releaseHandle k) (.goto (.decrease sp' values))
  | decrease (sp : Sp) (values : Values) :
      Move s (.decrease sp values) (.releasePartition sp) (.ret (.response values))
  | pop (pc : Pc n Sp) (sp : Sp) (q : QueueNum) (hinside : pc.inside = some sp)
      (hqueue : (s.partitions sp).queue q ≠ []) : Move s pc (.pop sp q) (.goto pc)
  | blockingAnswer (k : Fin n) (sp : Sp) (key : Key) (values : Values)
      (hmem : (QueueNum.blocking, key) ∈ (s.partitions sp).received) :
      Move s (.blockingEntry k sp) (.answer sp .blocking key)
        (.goto (.setIdle sp (.blocking k values)))
  | answer (sp : Sp) (q : QueueNum) (key : Key) (values : Values) (after : After n)
      (hmem : (q, key) ∈ (s.partitions sp).received) :
      Move s (.entry sp after) (.answer sp q key)
        (.goto (.returned sp (.putResponse q key values) after))
  | leave (sp : Sp) (exit : SpExit) (after : After n)
      (hexit : exit = .yield ∨ exit = .preempted) :
      Move s (.entry sp after) .skip (.goto (.returned sp exit after))

variable {cfg : Config Uuid Sp} {s : State n Sp Cpu} {e : Effect n Sp} {nxt : Next n Sp}

theorem fail_eq_some (h : fail err = some (e, nxt)) : e = .skip ∧ nxt = .ret (.error err) := by
  cases h
  exact ⟨rfl, rfl⟩

variable {handle clientId : UInt16} {cpu : Cpu} {pc : Pc n Sp}

theorem spciHandleInfoGet_some {k : Fin n} (h : s.spciHandleInfoGet handle clientId = some k) :
    (s.handles k).status = .opened ∧ (s.handles k).handle = handle ∧
      (s.handles k).clientId = clientId := by
  have hk := List.find?_some h
  simp only [decide_eq_true_eq] at hk
  refine ⟨?_, hk.2⟩
  cases hstat : (s.handles k).status with
  | closed => exact absurd hstat hk.1
  | opened => rfl

theorem names_of_get {token : UInt32} {k : Fin n} {sp : Sp}
    (h : s.spciHandleInfoGet handle clientId = some k) (hsp : (s.handles k).spCtx = some sp) :
    s.Names k sp ⟨clientId, handle, token⟩ := by
  obtain ⟨hstat, hhd, hcli⟩ := spciHandleInfoGet_some h
  exact ⟨hstat, hsp, hhd, hcli⟩

theorem fail_move (h : fail err = some (e, nxt)) : Move s .idle e nxt := by
  obtain ⟨rfl, rfl⟩ := fail_eq_some h
  exact .callFails _

/-- A call that looks up a handle fails, or goes on with the entry and its partition. -/
theorem lookUp_move {f : Fin n → Sp → Option (Effect n Sp × Next n Sp)}
    (h : (match s.spciHandleInfoGet handle clientId with
      | none => fail err
      | some k =>
        match (s.handles k).spCtx with
        | none => none
        | some sp => f k sp) = some (e, nxt)) :
    Move s .idle e nxt ∨ ∃ k sp, s.spciHandleInfoGet handle clientId = some k ∧
      (s.handles k).spCtx = some sp ∧ f k sp = some (e, nxt) := by
  cases hk : s.spciHandleInfoGet handle clientId with
  | none =>
    rw [hk] at h
    exact .inl (fail_move h)
  | some k =>
    cases hsp : (s.handles k).spCtx with
    | none => simp [hk, hsp] at h
    | some sp =>
      simp only [hk, hsp] at h
      exact .inr ⟨k, sp, rfl, hsp, h⟩

theorem call_move {op : Op Uuid} (h : call cfg s op = some (e, nxt))
    (hok : Admissible cfg s (.call cpu op)) : Move s .idle e nxt := by
  cases op with
  | openPoll uuid clientId =>
    rw [call] at h
    cases hsp : cfg.spmSpGetByUuid uuid with
    | none =>
      rw [hsp] at h
      exact fail_move h
    | some sp =>
      rw [hsp] at h
      cases hk : s.freeHandle with
      | none =>
        rw [hk] at h
        exact fail_move h
      | some k =>
        rw [hk] at h
        cases h
        have hclosed := List.find?_some hk
        exact .openPoll k sp clientId (of_decide_eq_true hclosed) hok.1 hok.2
  | close clientId handle =>
    rw [call] at h
    cases hk : s.spciHandleInfoGet handle clientId with
    | none =>
      rw [hk] at h
      exact fail_move h
    | some k =>
      simp only [hk] at h
      split_ifs at h with hactive
      · exact fail_move h
      · cases h
        exact .close k (not_not.mp hactive)
  | requestBlocking =>
    rcases lookUp_move h with hm | ⟨k, sp, hk, hsp, h⟩
    · exact hm
    split at h
    next hactive =>
      exact fail_move h
    next hactive =>
      split_ifs at h with hcount
      · exact fail_move h
      · cases h
        have hzero : (s.handles k).numActiveRequests = 0 :=
          not_not.mp fun hne => hactive (UInt32.pos_iff_ne_zero.mpr hne)
        exact .blocking k sp _ (names_of_get hk hsp) hzero (not_not.mp hcount)
  | requestStart =>
    rcases lookUp_move h with hm | ⟨k, sp, hk, hsp, h⟩
    · exact hm
    cases h
    obtain ⟨hactive, hcount⟩ := hok k hk
    exact .start k sp _ (names_of_get hk hsp) hactive (hcount sp hsp)
  | requestResume =>
    rcases lookUp_move h with hm | ⟨k, sp, hk, hsp, h⟩
    · exact hm
    cases h
    exact .lookUp .resume k sp _ (names_of_get hk hsp)
  | getResponse =>
    rcases lookUp_move h with hm | ⟨k, sp, hk, hsp, h⟩
    · exact hm
    cases h
    exact .lookUp .getResponse k sp _ (names_of_get hk hsp)

theorem advance_move (hpc : s.pc cpu = pc) (h : advance cfg s pc = some (e, nxt))
    (hok : Admissible cfg s (.advance cpu : Label Cpu Uuid)) : Move s pc e nxt := by
  cases pc with
  | idle | blockingEntry | entry => simp [advance] at h
  | blockingWait k sp key =>
    rw [advance, ite_none_right_eq_some] at h
    cases h.2
    exact .blockingWait k sp key h.1
  | blockingPush k sp key =>
    rw [advance, ite_none_right_eq_some] at h
    cases h.2
    exact .blockingPush k sp key
  | startPush k sp key =>
    rw [Admissible, hpc] at hok
    rw [advance, if_pos (of_decide_eq_true hok)] at h
    cases h
    exact .startPush k sp key
  | startSwitch sp token =>
    rw [advance] at h
    split_ifs at h with hidle
    · cases h
      exact .startEnters sp token hidle
    · cases h
      exact .startReturns sp token
  | resumeSwitch k openedAt sp key =>
    rw [advance] at h
    split_ifs at h with hidle
    · cases h
      exact .resumeEnters k openedAt sp key hidle
    · obtain ⟨rfl, rfl⟩ := fail_eq_some h
      exact .resumeQueued k openedAt sp key
  | returned sp exit after =>
    cases exit with
    | putResponse q key values =>
      rw [advance, ite_none_left_eq_some] at h
      cases h.2
      exact .responseAdd sp q key values after
    | yield =>
      cases h
      exact .noResponse sp _ after (.inl rfl)
    | preempted =>
      cases h
      exact .noResponse sp _ after (.inr rfl)
  | setIdle sp after =>
    simp only [advance, ite_none_right_eq_some] at h
    cases h.2
    cases after with
    | blocking k values => exact .blockingIdle sp k values
    | start token => exact .startIdle sp token
    | resume k openedAt key => exact .resumeIdle sp k openedAt key
  | get from_ k openedAt sp key =>
    rw [advance] at h
    cases hfound : spmResponseGet s.responses key with
    | some values =>
      rw [hfound] at h
      cases h
      exact .getFound from_ k openedAt sp key _ values hfound
    | none =>
      simp only [hfound] at h
      split_ifs at h with hfrom
      · cases h
        exact .getSwitches from_ k openedAt sp key
      · obtain ⟨rfl, rfl⟩ := fail_eq_some h
        exact .getQueued from_ k openedAt sp key
  | release readSp k sp values =>
    cases readSp with
    | true =>
      obtain ⟨sp', hsp', h⟩ := map_eq_some_iff.mp h
      cases h
      exact .release true k sp sp' values (.inr hsp')
    | false =>
      cases h
      exact .release false k sp sp values (.inl rfl)
  | decrease sp values =>
    cases h
    exact .decrease sp values

theorem exit_move {exit : SpExit} (hpc : s.pc cpu = pc)
    (h : Spci.exit s exit pc = some (e, nxt)) (hok : Admissible cfg s (.exit cpu exit)) :
    Move s pc e nxt := by
  cases pc with
  | blockingEntry k sp =>
    cases exit with
    | putResponse q key values =>
      simp only [Spci.exit, ite_none_right_eq_some] at h
      obtain ⟨hmem, h⟩ := h
      cases h
      rw [Admissible, hpc] at hok
      obtain rfl : q = .blocking := of_decide_eq_true hok
      exact .blockingAnswer k sp key values hmem
    | _ => simp [Spci.exit] at h
  | entry sp after =>
    cases exit with
    | putResponse q key values =>
      simp only [Spci.exit, ite_none_right_eq_some] at h
      obtain ⟨hmem, h⟩ := h
      cases h
      exact .answer sp q key values after hmem
    | yield =>
      cases h
      exact .leave sp _ after (.inl rfl)
    | preempted =>
      cases h
      exact .leave sp _ after (.inr rfl)
  | _ => simp [Spci.exit] at h

/-- **Every admissible step is a move of a CPU.** A call starts with nothing added to the
counts. -/
theorem step_move [DecidableEq Sp] [DecidableEq Cpu] {label : Label Cpu Uuid}
    {s' : State n Sp Cpu} (h : step cfg s label = some s') (hok : Admissible cfg s label) :
    ∃ cpu net e nxt, Move s (s.pc cpu) e nxt ∧ s' = s.exec cpu net e nxt ∧
      (s.pc cpu ≠ .idle ∧ net = s.net cpu ∨ s.pc cpu = .idle ∧ net = ⟨0, 0⟩) := by
  cases label with
  | call cpu =>
    obtain ⟨hidle, h⟩ := ite_none_right_eq_some.mp h
    obtain ⟨⟨e, nxt⟩, hcall, rfl⟩ := map_eq_some_iff.mp h
    refine ⟨cpu, ⟨0, 0⟩, e, nxt, ?_, rfl, .inr ⟨hidle, rfl⟩⟩
    rw [hidle]
    exact call_move hcall hok
  | advance cpu =>
    obtain ⟨⟨e, nxt⟩, hadv, rfl⟩ := map_eq_some_iff.mp h
    refine ⟨cpu, s.net cpu, e, nxt, advance_move rfl hadv hok, rfl, .inl ⟨?_, rfl⟩⟩
    intro hidle
    simp [hidle, advance] at hadv
  | pop cpu q =>
    rw [step] at h
    cases hinside : (s.pc cpu).inside with
    | none => simp [hinside] at h
    | some sp =>
      simp only [hinside, ite_none_left_eq_some] at h
      refine ⟨cpu, s.net cpu, _, _, .pop _ sp q hinside h.1, (some.inj h.2).symm,
        .inl ⟨?_, rfl⟩⟩
      intro hidle
      simp [hidle, Pc.inside] at hinside
  | exit cpu =>
    obtain ⟨⟨e, nxt⟩, hexit, rfl⟩ := map_eq_some_iff.mp h
    refine ⟨cpu, s.net cpu, e, nxt, exit_move rfl hexit hok, rfl, .inl ⟨?_, rfl⟩⟩
    intro hidle
    simp [hidle, Spci.exit] at hexit

end TrustedFirmware.Spm.Spci
