import Mathlib.Data.Set.Card
import TrustedFirmware.Lib.Linearizable

/-!
# The response array of `spm_buffers.c`, shared by all CPUs

`spm_response_add` and `spm_response_get`, one access to the array or to the lock at a time.

**The array is a bounded map.** Every history of calls and returns is one that an atomic map from
tokens to responses could have had, with room for `PLAT_SPM_RESPONSES_MAX` of them
(`BoundedMap.object`); the loops are simulated entry by entry.

**The lock.** `spm_response_add` returns from its first loop without `spin_unlock` when it finds
its token in the array. As long as no call is made with such a token, the lock is held only by a
CPU inside its critical section, and every call can be completed; the first call with one blocks
every later call for ever (`duplicate_token_blocks`).
-/

namespace TrustedFirmware.Spm.Responses

open Lib Option Function Finset

/-! ### The code -/

/-- `x1`, `x2` and `x3` -/
structure Values where
  x1 : UInt64
  x2 : UInt64
  x3 : UInt64
  deriving DecidableEq, Repr

/-- `struct sprt_response` -/
structure SprtResponse where
  isValid : Bool
  token : UInt32
  clientId : UInt16
  handle : UInt16
  values : Values
  deriving DecidableEq, Repr

/-- The arguments that name a response. -/
structure Key where
  clientId : UInt16
  handle : UInt16
  token : UInt32
  deriving DecidableEq, Repr

/-- The two functions, with their arguments. -/
inductive Op
  | add (key : Key) (values : Values)
  | get (key : Key)
  deriving DecidableEq, Repr

/-- What they return: 0 or -1, and what has been stored through the pointers. -/
structure Res where
  rc : Int
  values : Option Values
  deriving DecidableEq, Repr

def Res.success (values : Option Values) : Res := ⟨0, values⟩
def Res.failure : Res := ⟨-1, none⟩

/-- Where a CPU is. -/
inductive Pc
  /-- in neither function -/
  | idle
  /-- in `spin_lock` -/
  | lock (op : Op)
  /-- in the first loop of `spm_response_add`, at the entry `i` -/
  | dupScan (key : Key) (values : Values) (i : Nat)
  /-- in the second loop of `spm_response_add` -/
  | freeScan (key : Key) (values : Values) (i : Nat)
  /-- before `resp->is_valid = 1` -/
  | validate (key : Key) (values : Values) (i : Nat)
  /-- in the loop of `spm_response_get` -/
  | getScan (key : Key) (i : Nat)
  /-- before `resp->is_valid = 0`, the values have been read -/
  | invalidate (key : Key) (values : Values) (i : Nat)
  /-- before `spin_unlock` -/
  | unlock (res : Res)
  /-- before the return -/
  | ret (res : Res)
  deriving DecidableEq, Repr

/-- The responses match all the information. -/
def SprtResponse.isFor (resp : SprtResponse) (key : Key) : Prop :=
  resp.token = key.token ∧ resp.clientId = key.clientId ∧ resp.handle = key.handle

instance (resp : SprtResponse) (key : Key) : Decidable (resp.isFor key) :=
  inferInstanceAs (Decidable (_ ∧ _ ∧ _))

/-- `responses` -/
abbrev Array := Nat → SprtResponse

/-- One step between `spin_lock` and `spin_unlock`, with `n` entries in the array. -/
def body (n : Nat) (responses : Array) : Pc → Option (Array × Pc)
  | .dupScan key values i =>
    if i < n then
      if (responses i).isValid = true ∧ (responses i).token = key.token then
        -- `return -1`, with the lock held
        some (responses, .ret .failure)
      else some (responses, .dupScan key values (i + 1))
    else some (responses, .freeScan key values 0)
  | .freeScan key values i =>
    if i < n then
      if (responses i).isValid = false then
        some (update responses i ⟨false, key.token, key.clientId, key.handle, values⟩,
          .validate key values i)
      else some (responses, .freeScan key values (i + 1))
    else some (responses, .unlock .failure)
  | .validate _ _ i =>
    some (update responses i { responses i with isValid := true }, .unlock (.success none))
  | .getScan key i =>
    if i < n then
      if (responses i).isValid = true ∧ (responses i).isFor key then
        some (responses, .invalidate key (responses i).values i)
      else some (responses, .getScan key (i + 1))
    else some (responses, .unlock .failure)
  | .invalidate _ values i =>
    some (update responses i { responses i with isValid := false },
      .unlock (.success (some values)))
  | .idle | .lock _ | .unlock _ | .ret _ => none

/-- Where a CPU goes once it has the lock. -/
def Op.start : Op → Pc
  | .add key values => .dupScan key values 0
  | .get key => .getScan key 0

variable {Cpu : Type} [DecidableEq Cpu]

/-- The array, the lock with the CPU that has taken it, where each CPU is, and the calls and
returns so far. -/
structure System (Cpu : Type) where
  responses : Array
  lock : Option Cpu
  pc : Cpu → Pc
  history : List (HistoryEvent Cpu Op Res)

/-- A CPU calls one of the functions, or goes one step further in it. -/
inductive Label (Cpu : Type)
  | call (cpu : Cpu) (op : Op)
  | advance (cpu : Cpu)

/-- One step of one CPU. -/
def advance (n : Nat) (s : System Cpu) (cpu : Cpu) : Option (System Cpu) :=
  match s.pc cpu with
  | .idle => none
  | .lock op =>
    if s.lock = none then
      some { s with lock := some cpu, pc := update s.pc cpu op.start }
    else none
  | .unlock res => some { s with lock := none, pc := update s.pc cpu (.ret res) }
  | .ret res =>
    some { s with
      pc := update s.pc cpu .idle
      history := s.history ++ [.ret cpu res] }
  | pc => do
    let (responses, pc') ← body n s.responses pc
    some { s with responses := responses, pc := update s.pc cpu pc' }

def step (n : Nat) (s : System Cpu) : Label Cpu → Option (System Cpu)
  | .call cpu op =>
    if s.pc cpu = .idle then
      some { s with
        pc := update s.pc cpu (.lock op)
        history := s.history ++ [.call cpu op] }
    else none
  | .advance cpu => advance n s cpu

/-- The array as it is in memory that has been zeroed. -/
def System.init : System Cpu := ⟨fun _ => ⟨false, 0, 0, 0, ⟨0, 0, 0⟩⟩, none, fun _ => .idle, []⟩

/-! ### The bounded map -/

/-- What is stored under a token. -/
structure Stored where
  clientId : UInt16
  handle : UInt16
  values : Values
  deriving DecidableEq, Repr

def SprtResponse.stored (resp : SprtResponse) : Stored :=
  ⟨resp.clientId, resp.handle, resp.values⟩

/-- A map from tokens to responses. -/
abbrev BoundedMap := UInt32 → Option Stored

namespace BoundedMap

/-- The number of tokens in the map. -/
noncomputable def size (m : BoundedMap) : Nat := {t | (m t).isSome = true}.ncard

/-- A response is added unless its token is in the map or the map is full; a response is handed
out, and removed, to who asks for its token, client and handle. -/
noncomputable def apply (n : Nat) (m : BoundedMap) : Op → Res × BoundedMap
  | .add key values =>
    if (m key.token).isSome = true ∨ n ≤ m.size then (.failure, m)
    else (.success none,
      update m key.token (some ⟨key.clientId, key.handle, values⟩))
  | .get key =>
    match m key.token with
    | some stored =>
      if stored.clientId = key.clientId ∧ stored.handle = key.handle then
        (.success (some stored.values), update m key.token none)
      else (.failure, m)
    | none => (.failure, m)

/-- The map with room for `n` responses, as a sequential object. -/
noncomputable def object (n : Nat) : Object BoundedMap Op Res := ⟨fun _ => none, apply n⟩

end BoundedMap

/-! ### The array as a map -/

/-- The entry holds a response with the token. -/
def Holds (responses : Array) (t : UInt32) (i : Nat) : Prop :=
  (responses i).isValid = true ∧ (responses i).token = t
  deriving Decidable

/-- The valid entries of the array are the map, each token in one of them. -/
structure Represents (n : Nat) (responses : Array) (m : BoundedMap) : Prop where
  distinct : ∀ i j t, i < n → j < n → Holds responses t i → Holds responses t j → i = j
  agree : ∀ t stored, m t = some stored ↔
    ∃ i < n, Holds responses t i ∧ (responses i).stored = stored

variable {i : Nat} {op : Op}

namespace Represents

variable {n : Nat} {responses : Array} {m : BoundedMap}

variable (h : Represents n responses m)
include h

theorem isSome_iff (t : UInt32) : (m t).isSome = true ↔ ∃ i < n, Holds responses t i := by
  rw [isSome_iff_exists]
  constructor
  · rintro ⟨stored, hsto⟩
    obtain ⟨i, hi, hhd, -⟩ := (h.agree t stored).mp hsto
    exact ⟨i, hi, hhd⟩
  · rintro ⟨i, hi, hhd⟩
    exact ⟨_, (h.agree t _).mpr ⟨i, hi, hhd, rfl⟩⟩

theorem eq_none {t : UInt32} (hnone : ∀ i < n, ¬ Holds responses t i) : m t = none := by
  rw [← not_isSome_iff_eq_none, h.isSome_iff]
  rintro ⟨i, hi, hhd⟩
  exact hnone i hi hhd

theorem full_iff : n ≤ m.size ↔ ∀ i < n, (responses i).isValid = true := by
  have himg : {t | (m t).isSome = true} =
      ((range n).filter fun i => (responses i).isValid = true).image
        fun i => (responses i).token := by
    ext t
    simp [h.isSome_iff, Holds, and_assoc]
  have hsize : m.size = ((range n).filter fun i => (responses i).isValid = true).card := by
    rw [BoundedMap.size, himg, Set.ncard_coe_finset]
    apply card_image_of_injOn
    intro i hi j hj htok
    obtain ⟨hin, hi⟩ := mem_filter.mp hi
    obtain ⟨hjn, hj⟩ := mem_filter.mp hj
    exact h.distinct i j _ (mem_range.mp hin) (mem_range.mp hjn) ⟨hi, rfl⟩ ⟨hj, htok.symm⟩
  have hle := card_filter_le (range n) fun i => (responses i).isValid = true
  rw [card_range] at hle
  have hall := card_filter_eq_iff (s := range n) (p := fun i => (responses i).isValid = true)
  rw [card_range] at hall
  have heq : n ≤ m.size ↔ m.size = n := ⟨fun hn => le_antisymm (hsize ▸ hle) hn, fun hn => hn.ge⟩
  rw [heq, hsize, hall]
  simp

/-- **One entry is written.** No other entry has the token that it gets, and the map loses the
response of the entry and gets the new one. -/
theorem write {resp : SprtResponse} {m' : BoundedMap} (hin : i < n)
    (hnew : resp.isValid = true → ∀ j < n, j ≠ i → ¬ Holds responses resp.token j)
    (hm : ∀ t, m' t = if resp.isValid = true ∧ resp.token = t then some resp.stored
      else if Holds responses t i then none else m t) :
    Represents n (update responses i resp) m' := by
  have hat : ∀ {t}, Holds (update responses i resp) t i ↔ resp.isValid = true ∧ resp.token = t := by
    simp [Holds]
  have hne : ∀ {t j}, j ≠ i → (Holds (update responses i resp) t j ↔ Holds responses t j) := by
    intro t j hj
    simp [Holds, hj]
  -- an entry with the token of the written one is that one
  have heq : ∀ {t j}, j < n → Holds (update responses i resp) t i →
      Holds (update responses i resp) t j → j = i := by
    intro t j hj hi' hj'
    by_contra hji
    obtain ⟨hval, rfl⟩ := hat.mp hi'
    exact hnew hval j hj hji ((hne hji).mp hj')
  refine ⟨fun j k t hj hk hj' hk' => ?_, fun t stored => ?_⟩
  · obtain rfl | hji := eq_or_ne j i
    · exact (heq hk hj' hk').symm
    · obtain rfl | hki := eq_or_ne k i
      · exact heq hj hk' hj'
      · exact h.distinct j k t hj hk ((hne hji).mp hj') ((hne hki).mp hk')
  · rw [hm t]
    split_ifs with ht hi
    · constructor
      · rintro ⟨⟩
        exact ⟨i, hin, hat.mpr ht, by rw [update_self]⟩
      · rintro ⟨j, hj, hj', rfl⟩
        rw [heq hj (hat.mpr ht) hj', update_self]
    · refine iff_of_false (by simp) ?_
      rintro ⟨j, hj, hj', -⟩
      have hji : j ≠ i := by
        rintro rfl
        exact ht (hat.mp hj')
      exact hji (h.distinct j i t hj hin ((hne hji).mp hj') hi)
    · rw [h.agree]
      refine exists_congr fun j => and_congr_right fun _ => ?_
      obtain rfl | hji := eq_or_ne j i
      · simp [hat, ht, hi]
      · rw [hne hji, update_of_ne hji]

theorem writeFree (hin : i < n) (hi : (responses i).isValid = false)
    {resp : SprtResponse} (hresp : resp.isValid = false) :
    Represents n (update responses i resp) m :=
  h.write hin (by simp [hresp]) fun t => by simp [hresp, Holds, hi]

/-- A response with a token that no entry holds becomes valid. -/
theorem add (hin : i < n) (hi : (responses i).isValid = false)
    (hnone : ∀ j < n, ¬ Holds responses (responses i).token j) :
    Represents n (update responses i { responses i with isValid := true })
      (update m (responses i).token (some (responses i).stored)) := by
  refine h.write hin (fun _ j hj _ => hnone j hj) fun t => ?_
  simp [update_apply, Holds, hi, eq_comm, SprtResponse.stored]

theorem remove (hin : i < n) (hi : (responses i).isValid = true) :
    Represents n (update responses i { responses i with isValid := false })
      (update m (responses i).token none) := by
  refine h.write hin (by simp) fun t => ?_
  simp [update_apply, Holds, hi, eq_comm]

end Represents

/-! ### One step in the critical section -/

/-- Whether the call has taken effect: it has once the outcome is known. -/
def Pc.status : Pc → Status Op Res
  | .idle => .idle
  | .lock op => .pending op
  | .dupScan key values _ | .freeScan key values _ | .validate key values _ =>
    .pending (.add key values)
  | .getScan key _ | .invalidate key _ _ => .pending (.get key)
  | .unlock res | .ret res => .done res

/-- What a loop has found out so far. -/
def Scanned (n : Nat) (responses : Array) : Pc → Prop
  | .dupScan key _ i => ∀ j < i, ¬ Holds responses key.token j
  | .freeScan key _ i => (∀ j < n, ¬ Holds responses key.token j) ∧
      ∀ j < i, (responses j).isValid = true
  | .validate key values i => i < n ∧ (∀ j < n, ¬ Holds responses key.token j) ∧
      responses i = ⟨false, key.token, key.clientId, key.handle, values⟩
  | .getScan key i => ∀ j < i, ¬ ((responses j).isValid = true ∧ (responses j).isFor key)
  | .invalidate key values i => i < n ∧ (responses i).isValid = true ∧ (responses i).isFor key ∧
      (responses i).values = values
  | .idle | .lock _ | .unlock _ | .ret _ => True

section

variable {n : Nat} {responses responses' : Array} {m : BoundedMap} {pc pc' : Pc}

/-- The step leaves the map alone, or it is the moment at which the operation takes effect. -/
def Follows (n : Nat) (m : BoundedMap) (pc : Pc) (responses' : Array) (pc' : Pc) : Prop :=
  (pc'.status = pc.status ∧ Represents n responses' m) ∨
    ∃ op, pc.status = .pending op ∧ pc'.status = .done (BoundedMap.apply n m op).1 ∧
      Represents n responses' (BoundedMap.apply n m op).2

theorem Follows.effect {res : Res} {m' : BoundedMap} (hop : pc.status = .pending op)
    (hap : BoundedMap.apply n m op = (res, m')) (hres : pc'.status = .done res)
    (hrep : Represents n responses' m') : Follows n m pc responses' pc' :=
  .inr ⟨op, hop, by rw [hap]; exact hres, by rw [hap]; exact hrep⟩

/-- Every step from here is followed by the map, and the loop goes on as it should. -/
def Simulated (n : Nat) (m : BoundedMap) (responses : Array) (pc : Pc) : Prop :=
  ∀ {responses' pc'}, Scanned n responses pc → body n responses pc = some (responses', pc') →
    Scanned n responses' pc' ∧ Follows n m pc responses' pc'

variable {key : Key} {values : Values}

section

variable (hrep : Represents n responses m)
include hrep

theorem dupScan_simulated : Simulated n m responses (.dupScan key values i) := by
  intro responses' pc' hscan h
  simp only [body] at h
  split_ifs at h with hi hfd
  · cases h
    have hap : BoundedMap.apply n m (.add key values) = (.failure, m) :=
      if_pos (.inl ((hrep.isSome_iff key.token).mpr ⟨i, hi, hfd⟩))
    exact ⟨trivial, .effect rfl hap rfl hrep⟩
  · cases h
    exact ⟨Nat.forall_lt_succ_right.mpr ⟨hscan, hfd⟩, .inl ⟨rfl, hrep⟩⟩
  · cases h
    refine ⟨⟨fun j hj => hscan j (by omega), ?_⟩, .inl ⟨rfl, hrep⟩⟩
    simp

theorem freeScan_simulated : Simulated n m responses (.freeScan key values i) := by
  intro responses' pc' hscan h
  obtain ⟨hnone, hval⟩ := hscan
  simp only [body] at h
  split_ifs at h with hi hfree
  · cases h
    refine ⟨⟨hi, fun j hj hhd => ?_, update_self ..⟩, .inl ⟨rfl, hrep.writeFree hi hfree rfl⟩⟩
    obtain rfl | hji := eq_or_ne j i
    · simp [Holds] at hhd
    · simp only [Holds, update_of_ne hji] at hhd
      exact hnone j hj hhd
  · cases h
    have hvalid' : (responses i).isValid = true := by simpa using hfree
    exact ⟨⟨hnone, Nat.forall_lt_succ_right.mpr ⟨hval, hvalid'⟩⟩, .inl ⟨rfl, hrep⟩⟩
  · -- the array is full
    cases h
    have hfull : n ≤ m.size := hrep.full_iff.mpr fun j hj => hval j (by omega)
    exact ⟨trivial, .effect rfl (if_pos (.inr hfull)) rfl hrep⟩

theorem validate_simulated : Simulated n m responses (.validate key values i) := by
  intro responses' pc' hscan h
  obtain ⟨hi, hnone, hen⟩ := hscan
  cases h
  have hfree : (responses i).isValid = false := by rw [hen]
  have htok : (responses i).token = key.token := by rw [hen]
  have hfull : ¬ n ≤ m.size := by
    intro hfull
    have hval := hrep.full_iff.mp hfull i hi
    rw [hfree] at hval
    cases hval
  have hap : BoundedMap.apply n m (.add key values) = (.success none,
      update m key.token (some ⟨key.clientId, key.handle, values⟩)) := by
    refine if_neg ?_
    rintro (hsome | hn)
    · rw [hrep.eq_none hnone] at hsome
      cases hsome
    · exact hfull hn
  have hadd := hrep.add hi hfree (htok ▸ hnone)
  have hsto : (responses i).stored = ⟨key.clientId, key.handle, values⟩ := by rw [hen]; rfl
  rw [hsto, htok] at hadd
  exact ⟨trivial, .effect rfl hap rfl hadd⟩

theorem getScan_simulated : Simulated n m responses (.getScan key i) := by
  intro responses' pc' hscan h
  simp only [body] at h
  split_ifs at h with hi hfd
  · cases h
    exact ⟨⟨hi, hfd.1, hfd.2, rfl⟩, .inl ⟨rfl, hrep⟩⟩
  · cases h
    exact ⟨Nat.forall_lt_succ_right.mpr ⟨hscan, hfd⟩, .inl ⟨rfl, hrep⟩⟩
  · cases h
    have hap : BoundedMap.apply n m (.get key) = (.failure, m) := by
      simp only [BoundedMap.apply]
      cases hm : m key.token with
      | none => rfl
      | some stored =>
        refine if_neg ?_
        rintro ⟨hcli, hhd⟩
        obtain ⟨j, hj, ⟨hval, htok⟩, rfl⟩ := (hrep.agree key.token stored).mp hm
        exact hscan j (by omega) ⟨hval, htok, hcli, hhd⟩
    exact ⟨trivial, .effect rfl hap rfl hrep⟩

theorem invalidate_simulated : Simulated n m responses (.invalidate key values i) := by
  intro responses' pc' hscan h
  obtain ⟨hi, hval, ⟨htok, hcli, hhd⟩, hva⟩ := hscan
  cases h
  have hm : m key.token = some (responses i).stored :=
    (hrep.agree key.token _).mpr ⟨i, hi, ⟨hval, htok⟩, rfl⟩
  have hap : BoundedMap.apply n m (.get key) =
      (.success (some values), update m key.token none) := by
    simp only [BoundedMap.apply, hm]
    rw [if_pos ⟨hcli, hhd⟩, ← hva]
    rfl
  exact ⟨trivial, .effect rfl hap rfl (htok ▸ hrep.remove hi hval)⟩

/-- Every step between `spin_lock` and `spin_unlock` is followed by the map. -/
theorem body_simulated : Simulated n m responses pc := by
  cases pc with
  | idle | lock op | unlock res | ret res =>
    intro responses' pc' _ h
    cases h
  | dupScan => exact dupScan_simulated hrep
  | freeScan => exact freeScan_simulated hrep
  | validate => exact validate_simulated hrep
  | getScan => exact getScan_simulated hrep
  | invalidate => exact invalidate_simulated hrep

end

end

/-! ### One step of the system -/

/-- Between `spin_lock` and `spin_unlock`. -/
def Pc.inside : Pc → Bool
  | .dupScan _ _ _ | .freeScan _ _ _ | .validate _ _ _ | .getScan _ _ | .invalidate _ _ _
  | .unlock _ => true
  | .idle | .lock _ | .ret _ => false

/-- What a step can be. -/
inductive Move (n : Nat) (s : System Cpu) : Label Cpu → System Cpu → Prop
  | call {cpu : Cpu} {op : Op} : s.pc cpu = .idle →
      Move n s (.call cpu op) { s with
        pc := update s.pc cpu (.lock op)
        history := s.history ++ [.call cpu op] }
  | acquire {cpu : Cpu} {op : Op} : s.pc cpu = .lock op → s.lock = none →
      Move n s (.advance cpu) { s with
        lock := some cpu
        pc := update s.pc cpu op.start }
  | body {cpu : Cpu} {responses : Array} {pc' : Pc} :
      body n s.responses (s.pc cpu) = some (responses, pc') →
      Move n s (.advance cpu) { s with
        responses := responses
        pc := update s.pc cpu pc' }
  | release {cpu : Cpu} {res : Res} : s.pc cpu = .unlock res →
      Move n s (.advance cpu) { s with
        lock := none
        pc := update s.pc cpu (.ret res) }
  | ret {cpu : Cpu} {res : Res} : s.pc cpu = .ret res →
      Move n s (.advance cpu) { s with
        pc := update s.pc cpu .idle
        history := s.history ++ [.ret cpu res] }

variable {cpu : Cpu} {responses responses' : Array} {pc : Cpu → Pc} {pc' : Pc}
  {a : Atomic Cpu BoundedMap Op Res} {status : Cpu → Status Op Res} {ls : List (Label Cpu)}

variable {n : Nat} {s s' : System Cpu} {l : Label Cpu}

theorem step_move (h : step n s l = some s') : Move n s l s' := by
  cases l with
  | call =>
    simp only [step] at h
    split_ifs at h with hidle
    cases h
    exact .call hidle
  | advance cpu =>
    simp only [step, advance] at h
    have hbody : ∀ {pc}, s.pc cpu = pc → (do
        let (responses, pc') ← body n s.responses pc
        some { s with responses := responses, pc := update s.pc cpu pc' }) = some s' →
        Move n s (.advance cpu) s' := by
      rintro pc rfl hs'
      obtain ⟨⟨responses, pc'⟩, hb, hs'⟩ := bind_eq_some_iff.mp hs'
      cases hs'
      exact .body hb
    cases hpc : s.pc cpu <;> simp only [hpc] at h
    case idle => cases h
    case lock op =>
      split_ifs at h with hfree
      cases h
      exact .acquire hpc hfree
    case unlock res =>
      cases h
      exact .release hpc
    case ret res =>
      cases h
      exact .ret hpc
    all_goals exact hbody hpc h

theorem body_inside {pc : Pc}
    (h : body n responses pc = some (responses', pc')) : pc.inside = true := by
  cases pc <;> first | rfl | cases h

theorem scanned_of_not_inside {pc : Pc} (h : pc.inside = false) : Scanned n responses pc := by
  cases pc <;> trivial

theorem scanned_start (responses : Array) (op : Op) : Scanned n responses op.start := by
  cases op with
  | add | get => exact fun j hj => absurd hj (Nat.not_lt_zero j)

/-- A CPU that is between `spin_lock` and `spin_unlock` has the lock. -/
def Mutex (lock : Option Cpu) (cpu : Cpu) (pc : Pc) : Prop := pc.inside = true → lock = some cpu

/-- How the system and the map correspond. -/
structure Refines (n : Nat) (s : System Cpu) (a : Atomic Cpu BoundedMap Op Res) : Prop where
  mutex : ∀ cpu, Mutex s.lock cpu (s.pc cpu)
  status : ∀ cpu, a.status cpu = (s.pc cpu).status
  represents : Represents n s.responses a.state
  scanned : ∀ cpu, Scanned n s.responses (s.pc cpu)

theorem mutex_update {lock : Option Cpu}
    (h : ∀ c, Mutex lock c (pc c)) (hpc' : Mutex lock cpu pc') :
    ∀ c, Mutex lock c (update pc cpu pc' c) :=
  (forall_update_iff _ (Mutex lock)).mpr ⟨hpc', fun c _ => h c⟩

theorem scanned_update (h : ∀ c, Scanned n responses (pc c)) (hpc' : Scanned n responses pc') :
    ∀ c, Scanned n responses (update pc cpu pc' c) :=
  (forall_update_iff _ fun _ => Scanned n responses).mpr ⟨hpc', fun c _ => h c⟩

/-- The status of every CPU after one of them has moved. -/
theorem status_update {st : Status Op Res}
    (h : ∀ c, status c = (pc c).status) (hst : st = pc'.status) (c : Cpu) :
    update status cpu st c = (update pc cpu pc' c).status := by
  obtain rfl | hc := eq_or_ne c cpu
  · rw [update_self, update_self, hst]
  · rw [update_of_ne hc, update_of_ne hc, h]

theorem status_update_same
    (h : ∀ c, status c = (pc c).status) (hst : pc'.status = (pc cpu).status) (c : Cpu) :
    status c = (update pc cpu pc' c).status := by
  rw [← status_update h ((h cpu).trans hst.symm), update_eq_self]

/-- The map follows every step. -/
theorem Refines.step (h : Refines n s a)
    (hexec : Exec (BoundedMap.object n) s.history a) (hstep : step n s l = some s') :
    ∃ a', Exec (BoundedMap.object n) s'.history a' ∧ Refines n s' a' := by
  cases step_move hstep with
  | @call cpu op hidle =>
    refine ⟨_, hexec.call ((h.status cpu).trans (by rw [hidle]; rfl)), ?_, ?_, h.represents, ?_⟩
    · exact mutex_update h.mutex fun hin => by cases hin
    · exact status_update h.status rfl
    · exact scanned_update h.scanned trivial
  | @acquire cpu op hpc hfree =>
    refine ⟨a, hexec, ?_, ?_, h.represents, ?_⟩
    · refine (forall_update_iff _ (Mutex (some cpu))).mpr ⟨fun _ => rfl, fun c _ hin => ?_⟩
      rw [h.mutex c hin] at hfree
      cases hfree
    · refine status_update_same h.status ?_
      rw [hpc]
      cases op <;> rfl
    · exact scanned_update h.scanned (scanned_start _ op)
  | @body cpu responses pc' hbody =>
    have hlock := h.mutex cpu (body_inside hbody)
    obtain ⟨hscan, hfol⟩ := body_simulated h.represents (h.scanned cpu) hbody
    have hmut : ∀ c, Mutex s.lock c (update s.pc cpu pc' c) :=
      mutex_update h.mutex fun _ => hlock
    -- no other CPU is in its critical section
    have hsca : ∀ c, Scanned n responses (update s.pc cpu pc' c) := by
      refine (forall_update_iff _ fun _ => Scanned n responses).mpr
        ⟨hscan, fun c hc => scanned_of_not_inside ?_⟩
      by_contra hin
      have hlock' := h.mutex c (by simpa using hin)
      exact hc (some.inj (hlock'.symm.trans hlock))
    obtain ⟨hst, hrep⟩ | ⟨op, hpend, hdone, hrep⟩ := hfol
    · exact ⟨a, hexec, hmut, status_update_same h.status hst, hrep, hsca⟩
    · exact ⟨_, hexec.effect ((h.status cpu).trans hpend), hmut,
        status_update h.status hdone.symm, hrep, hsca⟩
  | @release cpu res hpc =>
    refine ⟨a, hexec, ?_, ?_, h.represents, ?_⟩
    · refine (forall_update_iff _ (Mutex none)).mpr ⟨(fun hin => by cases hin), fun c hc hin => ?_⟩
      have hlock := h.mutex cpu (by rw [hpc]; rfl)
      exact absurd (some.inj ((h.mutex c hin).symm.trans hlock)) hc
    · exact status_update_same h.status (by rw [hpc]; rfl)
    · exact scanned_update h.scanned trivial
  | @ret cpu res hpc =>
    refine ⟨_, hexec.ret ((h.status cpu).trans (by rw [hpc]; rfl)), ?_, ?_, h.represents, ?_⟩
    · exact mutex_update h.mutex fun hin => by cases hin
    · exact status_update h.status rfl
    · exact scanned_update h.scanned trivial

omit [DecidableEq Cpu] in
theorem refines_init : Refines n (System.init : System Cpu) ⟨fun _ => none, fun _ => .idle⟩ where
  mutex cpu hin := by cases hin
  status cpu := rfl
  represents := by
    refine ⟨fun i j t _ _ hi _ => ?_, fun t stored => ?_⟩
    · cases hi.1
    · simp [Holds, System.init]
  scanned cpu := trivial

/-- In every run the map can be kept beside the array. -/
theorem refines_of_run (hrun : run (step n) .init ls = some s) :
    ∃ a, Exec (BoundedMap.object n) s.history a ∧ Refines n s a :=
  linearizable_of_simulation (Refines n) (fun _ _ _ _ h hexec hstep => h.step hexec hstep)
    ⟨_, .init, refines_init⟩ hrun

/-! ### The lock -/

/-- The token of an add that waits for the lock. -/
def Pc.addToken : Pc → Option UInt32
  | .lock (.add key _) => some key.token
  | _ => none

/-- The token of an add is not in the array when the add takes the lock. -/
def FreshToken (n : Nat) (s : System Cpu) : Label Cpu → Prop
  | .call _ _ => True
  | .advance cpu => ∀ t ∈ (s.pc cpu).addToken, ∀ i < n, ¬ Holds s.responses t i

instance (n : Nat) (s : System Cpu) : ∀ l, Decidable (FreshToken n s l)
  | .call _ _ => isTrue trivial
  | .advance cpu => decidableForallMem (s.pc cpu).addToken

/-- The first loop will not find its token. -/
def WillUnlock (n : Nat) (responses : Array) : Pc → Prop
  | .dupScan key _ _ => ∀ i < n, ¬ Holds responses key.token i
  | _ => True

/-- The lock is held by a CPU that will release it. -/
def LockOk (n : Nat) (s : System Cpu) : Prop :=
  ∀ cpu, s.lock = some cpu → (s.pc cpu).inside = true ∧ WillUnlock n s.responses (s.pc cpu)

/-- A step in the critical section that will not end at the wrong return stays inside. -/
theorem body_willUnlock {pc : Pc}
    (hwill : WillUnlock n responses pc) (h : body n responses pc = some (responses', pc')) :
    pc'.inside = true ∧ WillUnlock n responses' pc' := by
  cases pc with
  | dupScan key values i =>
    simp only [body] at h
    split_ifs at h with hi hfd
    · exact absurd hfd (hwill i hi)
    · cases h
      exact ⟨rfl, hwill⟩
    · cases h
      exact ⟨rfl, trivial⟩
  | freeScan key values i | getScan key i =>
    simp only [body] at h
    split_ifs at h <;> (cases h; exact ⟨rfl, trivial⟩)
  | validate key values i | invalidate key values i =>
    cases h
    exact ⟨rfl, trivial⟩
  | idle | lock op | unlock res | ret res => cases h

/-- A CPU that is not in its critical section does not have the lock, and moves as it likes. -/
theorem LockOk.outside (h : LockOk n s) (hin : (s.pc cpu).inside = false)
    {history : List (HistoryEvent Cpu Op Res)} :
    LockOk n { s with pc := update s.pc cpu pc', history := history } := by
  intro c hc
  have hne : c ≠ cpu := by
    rintro rfl
    rw [(h c hc).1] at hin
    cases hin
  simp only [update_of_ne hne]
  exact h c hc

theorem LockOk.step (href : Refines n s a)
    (h : LockOk n s) (hfr : FreshToken n s l) (hstep : step n s l = some s') : LockOk n s' := by
  cases step_move hstep with
  | call hidle => exact h.outside (by rw [hidle]; rfl)
  | @acquire cpu op hpc hfree =>
    intro c hc
    cases hc
    simp only [update_self]
    cases op with
    | add key => exact ⟨rfl, hfr key.token (by rw [hpc]; rfl)⟩
    | get => exact ⟨rfl, trivial⟩
  | @body cpu responses pc' hbody =>
    intro c hc
    have hlock := href.mutex cpu (body_inside hbody)
    obtain rfl : cpu = c := some.inj (hlock.symm.trans hc)
    simp only [update_self]
    exact body_willUnlock (h cpu hlock).2 hbody
  | @release cpu res hpc =>
    intro c hc
    cases hc
  | ret hpc => exact h.outside (by rw [hpc]; rfl)

/-- The number of steps to the return, at most. -/
def Pc.remaining (n : Nat) : Pc → Nat
  | .idle => 0
  | .lock _ => 2 * n + 7
  | .dupScan _ _ i => n - i + n + 6
  | .freeScan _ _ i => n - i + 5
  | .validate _ _ _ => 3
  | .getScan _ i => n - i + 5
  | .invalidate _ _ _ => 3
  | .unlock _ => 2
  | .ret _ => 1

/-- A step in the critical section is always possible, and brings the return nearer. -/
theorem exists_body {pc : Pc} (hin : pc.inside = true) (hunl : ∀ res, pc ≠ .unlock res) :
    ∃ responses' pc', body n responses pc = some (responses', pc') ∧
      pc'.remaining n < pc.remaining n ∧ (pc'.inside = true ∨ ∃ res, pc' = .ret res) := by
  cases pc with
  | dupScan key values i | freeScan key values i | getScan key i =>
    simp only [body]
    split_ifs
    all_goals exact ⟨_, _, rfl, by simp only [Pc.remaining]; omega, by simp [Pc.inside]⟩
  | validate key values i | invalidate key values i =>
    exact ⟨_, _, rfl, by simp [Pc.remaining], .inl rfl⟩
  | unlock res => exact absurd rfl (hunl res)
  | idle | lock op | ret res => cases hin

theorem step_body (h : body n s.responses (s.pc cpu) = some (responses, pc')) :
    step n s (.advance cpu) = some { s with
      responses := responses
      pc := update s.pc cpu pc' } := by
  have hin := body_inside h
  simp only [step, advance]
  generalize hpc : s.pc cpu = v at h hin
  cases v with
  | idle | lock op | ret res =>
    cases hin
  | unlock =>
    cases h
  | dupScan key values i | freeScan key values i | validate key values i | getScan key i
  | invalidate =>
    simp [h]

/-- The CPU can come to its return by itself, and if its token is fresh it leaves the lock free. -/
def Finishes (n : Nat) (s : System Cpu) (cpu : Cpu) : Prop :=
  ∃ ls s', run (step n) s ls = some s' ∧ s'.pc cpu = .idle ∧ (∀ c, c ≠ cpu → s'.pc c = s.pc c) ∧
    ((s.pc cpu).inside = true → WillUnlock n s.responses (s.pc cpu) → s'.lock = none) ∧
    ((s.pc cpu).inside = false → s'.lock = s.lock)

/-- One step of a CPU in its critical section. -/
theorem exists_step (hin : (s.pc cpu).inside = true) : ∃ t, step n s (.advance cpu) = some t ∧
    (t.pc cpu).remaining n < (s.pc cpu).remaining n ∧
    ((t.pc cpu).inside = true ∨ ∃ res, t.pc cpu = .ret res) ∧ (∀ c, c ≠ cpu → t.pc c = s.pc c) ∧
    (WillUnlock n s.responses (s.pc cpu) →
      (t.pc cpu).inside = true ∧ WillUnlock n t.responses (t.pc cpu) ∨
        (t.pc cpu).inside = false ∧ t.lock = none) := by
  by_cases hunl : ∃ res, s.pc cpu = .unlock res
  · obtain ⟨res, hres⟩ := hunl
    refine ⟨{ s with lock := none, pc := update s.pc cpu (.ret res) },
      by simp only [step, advance, hres], ?_, .inr ⟨res, update_self ..⟩,
      fun c hc => update_of_ne hc .., fun _ => .inr ⟨by simp [Pc.inside], rfl⟩⟩
    rw [hres]
    simp [Pc.remaining]
  · obtain ⟨responses, pc', (hbody : body n s.responses (s.pc cpu) = _), hlt, haf⟩ :=
      exists_body hin (fun res hres => hunl ⟨res, hres⟩)
    refine ⟨_, step_body hbody, ?_⟩
    simp only [update_self]
    exact ⟨hlt, haf, fun c hc => update_of_ne hc .., fun hw => .inl (body_willUnlock hw hbody)⟩

theorem finishes (hpos : (s.pc cpu).inside = true ∨ ∃ res, s.pc cpu = .ret res) :
    Finishes n s cpu := by
  induction hk : (s.pc cpu).remaining n using Nat.strong_induction_on generalizing s with
  | _ k ih =>
  rcases hpos with hin | ⟨res, hres⟩
  · -- a step of this CPU, and then the rest of its call
    obtain ⟨t, ht, hlt, hpos, hsame, hwill⟩ := exists_step hin
    obtain ⟨ls, s', hrun, hidle, hsame', hfree, hkeep⟩ := ih _ (hk ▸ hlt) hpos rfl
    refine ⟨.advance cpu :: ls, s', by rw [run, ht]; exact hrun, hidle,
      fun c hc => (hsame' c hc).trans (hsame c hc), fun _ hw => ?_, fun hout => ?_⟩
    · rcases hwill hw with ⟨hin', hw'⟩ | ⟨hout, hlock⟩
      · exact hfree hin' hw'
      · exact (hkeep hout).trans hlock
    · rw [hin] at hout
      cases hout
  · refine ⟨[.advance cpu], { s with
        pc := update s.pc cpu .idle
        history := s.history ++ [.ret cpu res] }, by simp [run, step, advance, hres],
      update_self .., fun c hc => update_of_ne hc .., fun hin => ?_, fun _ => rfl⟩
    rw [hres] at hin
    cases hin

/-- A call that waits for a free lock can be completed. -/
theorem exists_complete_of_free (hpc : s.pc cpu = .lock op) (hfree : s.lock = none) :
    ∃ ls s', run (step n) s ls = some s' ∧ s'.pc cpu = .idle := by
  have hstep : step n s (.advance cpu) = some { s with
      lock := some cpu
      pc := update s.pc cpu op.start } := by
    simp only [step, advance, hpc]
    exact if_pos hfree
  have hin : ∀ op : Op, op.start.inside = true := fun op => by cases op <;> rfl
  have hpos : (update s.pc cpu op.start cpu).inside = true := by
    rw [update_self]
    exact hin op
  obtain ⟨ls, s', hrun, hidle, -⟩ := finishes
    (s := { s with lock := some cpu, pc := update s.pc cpu op.start }) (.inl hpos)
  exact ⟨.advance cpu :: ls, s', by rw [run, hstep]; exact hrun, hidle⟩

/-- If the lock is held by a CPU that will release it, every call can be completed. -/
theorem LockOk.exists_complete (h : LockOk n s) (hbusy : s.pc cpu ≠ .idle) :
    ∃ ls s', run (Responses.step n) s ls = some s' ∧ s'.pc cpu = .idle := by
  by_cases hpos : (s.pc cpu).inside = true ∨ ∃ res, s.pc cpu = .ret res
  · obtain ⟨ls, s', hrun, hidle, -⟩ := finishes hpos
    exact ⟨ls, s', hrun, hidle⟩
  obtain ⟨op, hpc⟩ : ∃ op, s.pc cpu = .lock op := by
    cases hpc : s.pc cpu with
    | lock op => exact ⟨op, rfl⟩
    | idle => exact absurd hpc hbusy
    | ret res => exact absurd (.inr ⟨res, hpc⟩) hpos
    | dupScan key values i | freeScan key values i | validate key values i | getScan key i
    | invalidate key values i | unlock res => exact absurd (.inl (by rw [hpc]; rfl)) hpos
  cases hlock : s.lock with
  | none => exact exists_complete_of_free hpc hlock
  | some c =>
    -- first the CPU that has the lock
    obtain ⟨hin, hwill⟩ := h c hlock
    have hne : cpu ≠ c := by
      rintro rfl
      exact hpos (.inl hin)
    obtain ⟨ls, t, hrun, -, hsame, hfree, -⟩ := finishes (.inl hin)
    obtain ⟨ls', s', hrun', hidle⟩ :=
      exists_complete_of_free ((hsame cpu hne).trans hpc) (hfree hin hwill)
    exact ⟨ls ++ ls', s', run_trans hrun hrun', hidle⟩

/-- Once the lock is held by a CPU that has returned, no call that waits for it comes back. -/
theorem blocked_of_leaked (hlock : s.lock ≠ none) (hout : ∀ c, (s.pc c).inside = false)
    (hwait : s.pc cpu = .lock op) (hrun : run (step n) s ls = some s') :
    s'.pc cpu = .lock op := by
  refine (@run_invariant _ _ _
    (fun w => w.lock ≠ none ∧ (∀ c, (w.pc c).inside = false) ∧ w.pc cpu = .lock op)
    ?_ _ _ _ ⟨hlock, hout, hwait⟩ hrun).2.2
  rintro w l w' ⟨hwlo, hwout, hww⟩ hstep
  have hmv : ∀ {c pc'}, w.pc c ≠ .lock op → pc'.inside = false →
      (∀ c', (update w.pc c pc' c').inside = false) ∧
        update w.pc c pc' cpu = .lock op := by
    intro c pc' hc hpc'
    refine ⟨(forall_update_iff _ fun _ (pc : Pc) => pc.inside = false).mpr
      ⟨hpc', fun c' _ => hwout c'⟩, ?_⟩
    rw [update_of_ne (by rintro rfl; exact hc hww)]
    exact hww
  cases step_move hstep with
  | @call c op' hidle => exact ⟨hwlo, hmv (by rw [hidle]; exact Pc.noConfusion) rfl⟩
  | @acquire c op' hpc hfree => exact absurd hfree hwlo
  | @body c responses pc' hbody =>
    have hin := body_inside hbody
    rw [hwout c] at hin
    cases hin
  | @release c res hpc =>
    have hin := hwout c
    rw [hpc] at hin
    cases hin
  | @ret c res hpc => exact ⟨hwlo, hmv (by rw [hpc]; exact Pc.noConfusion) rfl⟩

/-! ### The response array -/

/-- **The response array is a linearizable bounded map.** Over every interleaving of calls by any
number of CPUs, the calls and returns are those of an atomic map with room for `n` responses. As
long as no response is added whose token is in the array, the lock is held only by a CPU in its
critical section, so it is free after every return, and every call can be completed. -/
theorem responses_linearizable (n : Nat) (ls : List (Label Cpu)) (s : System Cpu)
    (hrun : run (step n) .init ls = some s) :
    Linearizable (BoundedMap.object n) s.history ∧
    (Along (step n) (FreshToken n) .init ls →
      (∀ cpu, s.lock = some cpu → (s.pc cpu).inside = true) ∧
      ∀ cpu, s.pc cpu ≠ .idle → ∃ ls' s', run (step n) s ls' = some s' ∧ s'.pc cpu = .idle) := by
  obtain ⟨a, hexec, -⟩ := refines_of_run hrun
  refine ⟨⟨a, hexec⟩, fun hal => ?_⟩
  have hinit : LockOk n (System.init : System Cpu) := fun cpu hcpu => by cases hcpu
  obtain ⟨-, hlock⟩ := @run_invariant_along _ _ _ _
    (fun w => (∃ a, Exec (BoundedMap.object n) w.history a ∧ Refines n w a) ∧ LockOk n w)
    (by
      rintro w l w' ⟨⟨b, hb, href⟩, hlock⟩ hfr hw
      exact ⟨href.step hb hw, hlock.step href hfr hw⟩)
    _ _ _ ⟨⟨_, .init, refines_init⟩, hinit⟩ hal hrun
  exact ⟨fun cpu hcpu => (hlock cpu hcpu).1, fun cpu hbusy => hlock.exists_complete hbusy⟩

/-- CPU 0 adds two responses, in an array of two. -/
def twoAdds (t₁ t₂ : UInt32) : List (Label (Fin 2)) :=
  .call 0 (.add ⟨1, 2, t₁⟩ ⟨5, 6, 7⟩) :: List.replicate 8 (.advance 0) ++
    .call 0 (.add ⟨1, 2, t₂⟩ ⟨8, 9, 10⟩) :: List.replicate 3 (.advance 0)

theorem responses_linearizable_two :
    ∃ s, run (step 2) .init (twoAdds 3 4) = some s ∧
      Linearizable (BoundedMap.object 2) s.history ∧ s.lock = some 0 ∧
      ∃ ls' s', run (step 2) s ls' = some s' ∧ s'.pc 0 = .idle := by
  have hal : Along (step 2) (FreshToken 2) (System.init : System (Fin 2)) (twoAdds 3 4) := by
    decide +kernel
  refine exists_some_imp (q := fun s => s.lock = some 0 ∧ s.pc 0 ≠ .idle) (by decide +kernel)
    fun s hrun ⟨hlock, hbusy⟩ => ?_
  obtain ⟨hlin, hok⟩ := responses_linearizable 2 (twoAdds 3 4) s hrun
  exact ⟨hlin, hlock, (hok hal).2 0 hbusy⟩

/-- The second response has the token of the first: the call returns -1 and leaves the lock taken,
and CPU 1, which then asks for the first response, never returns. -/
theorem duplicate_token_blocks :
    ∃ s, run (step 2) .init (twoAdds 3 3 ++ [.call 1 (.get ⟨1, 2, 3⟩)]) = some s ∧
      s.pc 0 = .idle ∧ s.lock = some 0 ∧
      ∀ ls' s', run (step 2) s ls' = some s' → s'.pc 1 = .lock (.get ⟨1, 2, 3⟩) := by
  refine exists_some_imp (q := fun s => s.pc 0 = .idle ∧ s.lock = some 0 ∧
    s.pc 1 = .lock (.get ⟨1, 2, 3⟩)) (by decide +kernel)
    fun s _ ⟨hidle, hlock, hwait⟩ => ⟨hidle, hlock, fun ls' s' hrun' => ?_⟩
  have hout : ∀ c, (s.pc c).inside = false := by
    intro c
    match c with
    | 0 => rw [hidle]; rfl
    | 1 => rw [hwait]; rfl
  exact blocked_of_leaked (by rw [hlock]; exact some_ne_none 0) hout hwait hrun'

end TrustedFirmware.Spm.Responses
