import TrustedFirmware.Lib.Run

/-!
# The message queues of a secure partition (`sprt_host.c`, `sprt_queue.c`)

In the buffer that SPM shares with it: two queues behind each other, each with a header of four
words and its entries.

The partition has the buffer mapped read-write, so its stores may come between any two accesses of
SPM. `sprt_push_message` is a sequence of reads and writes here, one a step, and a store of the
partition is a step of its own.

SPM takes the number of entries, the size of an entry and the write index from the header each
time it needs them. As long as the partition leaves these words alone, SPM writes inside the buffer
and copies a message and nothing else (`push_inside_buffer`); a partition that stores a size of its
own has EL3 write behind the buffer (`entry_size_overwritten`).
-/

namespace TrustedFirmware.Spm.Queue

open Lib List Option

/-! ### Words in memory -/

abbrev Memory := Nat → UInt8

/-- The word at an address, least significant byte first. -/
def read32 (mem : Memory) (a : Nat) : Nat :=
  (mem a).toNat + (mem (a + 1)).toNat * 2 ^ 8 + (mem (a + 2)).toNat * 2 ^ 16 +
    (mem (a + 3)).toNat * 2 ^ 24

def write32 (mem : Memory) (a v : Nat) : Memory := fun x =>
  if a ≤ x ∧ x < a + 4 then UInt8.ofNat (v / 2 ^ (8 * (x - a))) else mem x

variable {a v : Nat} {mem : Memory}

theorem read32_congr {mem' : Memory} (h : ∀ x, a ≤ x → x < a + 4 → mem' x = mem x) :
    read32 mem' a = read32 mem a := by
  unfold read32
  rw [h a (by omega) (by omega), h (a + 1) (by omega) (by omega),
    h (a + 2) (by omega) (by omega), h (a + 3) (by omega) (by omega)]

theorem write32_of_lt {x : Nat} (h : x < a) : write32 mem a v x = mem x :=
  if_neg (by omega)

theorem read32_write32_of_ne {a' : Nat} (h : a' + 4 ≤ a ∨ a + 4 ≤ a') :
    read32 (write32 mem a v) a' = read32 mem a' :=
  read32_congr fun x hlo hhi => if_neg (by omega)

theorem read32_write32 (mem : Memory) (hv : v < 2 ^ 32) : read32 (write32 mem a v) a = v := by
  have hbyte : ∀ i < 4, (write32 mem a v (a + i)).toNat = v / 2 ^ (8 * i) % 2 ^ 8 := by
    intro i hi
    rw [write32, if_pos (by omega), Nat.add_sub_cancel_left, UInt8.toNat_ofNat']
  have h0 := hbyte 0 (by decide)
  have h1 := hbyte 1 (by decide)
  have h2 := hbyte 2 (by decide)
  have h3 := hbyte 3 (by decide)
  simp only [add_zero] at h0
  rw [read32, h0, h1, h2, h3]
  omega

/-! ### The code -/

/-- A field or an entry at an offset from a pointer. -/
def ptr (q off : Nat) : Nat := (q + off) % 2 ^ 64

/-- The offsets of the fields of `struct sprt_queue`. -/
def entryNum : Nat := 0
def entrySize : Nat := 4
def idxWrite : Nat := 8
def idxRead : Nat := 12

/-- `SPRT_QUEUE_HEADER_SIZE` and `SPRT_QUEUE_ENTRY_MSG_SIZE` -/
def headerSize : Nat := 16
def entryMsgSize : Nat := 64

/-- `sprt_queue_init` -/
def sprtQueueInit (mem : Memory) (queue num size : Nat) : Option Memory :=
  if size = 0 ∨ num = 0 then none
  else
    let mem := write32 mem (queue + entryNum) num
    let mem := write32 mem (queue + entrySize) size
    let mem := write32 mem (queue + idxWrite) 0
    let mem := write32 mem (queue + idxRead) 0
    some fun x =>
      if queue + headerSize ≤ x ∧ x < queue + headerSize + num * size % 2 ^ 32 then 0 else mem x

/-- The number of entries of the queue for non-blocking messages: what is left of the buffer. -/
def nonBlockingNum (bufferSize : Nat) : Nat :=
  (bufferSize - (headerSize + entryMsgSize * 4) - headerSize) / entryMsgSize % 2 ^ 32

/-- `sprt_initialize_queues` -/
def sprtInitializeQueues (mem : Memory) (base size : Nat) : Option Memory := do
  let mem ← sprtQueueInit mem base 4 entryMsgSize
  sprtQueueInit mem (base + (headerSize + entryMsgSize * 4)) (nonBlockingNum size) entryMsgSize

/-- `SPRT_QUEUE_NUM_BLOCKING` and `SPRT_QUEUE_NUM_NON_BLOCKING` -/
inductive QueueNum
  | blocking
  | nonBlocking
  deriving DecidableEq, Repr

def QueueNum.toNat : QueueNum → Nat
  | blocking => 0
  | nonBlocking => 1

/-- Where SPM is in `sprt_push_message`, before the access that the name says. -/
inductive Pc
  | idle
  /-- the loop over the queues before this one, with `k` more to go -/
  | walkNum (k q : Nat)
  | walkSize (k q num : Nat)
  /-- `sprt_queue_is_full` -/
  | fullWrite (q : Nat)
  | fullNum (q write : Nat)
  | fullRead (q next : Nat)
  /-- `&queue->data[queue->entry_size * queue->idx_write]` -/
  | dstSize (q : Nat)
  | dstWrite (q size : Nat)
  /-- `memcpy` -/
  | copySize (q dst : Nat)
  /-- the new value of `idx_write` -/
  | nextWrite (q : Nat)
  | nextNum (q write : Nat)
  deriving DecidableEq, Repr

/-- `while (queue_num-- > 0)` -/
def walk (k q : Nat) : Pc := if k = 0 then .fullWrite q else .walkNum (k - 1) q

/-- What SPM writes: bytes that `memcpy` copies from the message on, or a word. -/
inductive Access
  | copy (dst len : Nat)
  | store32 (a : Nat)
  deriving DecidableEq, Repr

/-- Memory, the push in progress with the memory that its message points to, and what SPM has
written. -/
structure System where
  mem : Memory
  pc : Pc
  message : Memory
  log : List Access

/-- `memcpy` of `len` bytes. -/
def copyBytes (mem : Memory) (dst len : Nat) (src : Memory) : Memory := fun x =>
  if x < 2 ^ 64 ∧ (x + 2 ^ 64 - dst) % 2 ^ 64 < len then src ((x + 2 ^ 64 - dst) % 2 ^ 64)
  else mem x

/-- One access of `sprt_push_message`. Words are unsigned and wrap; a remainder by zero is what
the division instruction of the architecture makes of it, the number itself. -/
def spmStep (s : System) : Option System :=
  match s.pc with
  | .idle => none
  | .walkNum k q => some { s with pc := .walkSize k q (read32 s.mem (ptr q entryNum)) }
  | .walkSize k q num =>
    let next := ptr q (headerSize + num * read32 s.mem (ptr q entrySize) % 2 ^ 32)
    some { s with pc := walk k next }
  | .fullWrite q => some { s with pc := .fullNum q (read32 s.mem (ptr q idxWrite)) }
  | .fullNum q write =>
    some { s with pc := .fullRead q ((write + 1) % 2 ^ 32 % read32 s.mem (ptr q entryNum)) }
  | .fullRead q next =>
    -- `return -ENOMEM`
    if next = read32 s.mem (ptr q idxRead) then some { s with pc := .idle }
    else some { s with pc := .dstSize q }
  | .dstSize q => some { s with pc := .dstWrite q (read32 s.mem (ptr q entrySize)) }
  | .dstWrite q size =>
    let dst := ptr q (headerSize + size * read32 s.mem (ptr q idxWrite) % 2 ^ 32)
    some { s with pc := .copySize q dst }
  | .copySize q dst =>
    let len := read32 s.mem (ptr q entrySize)
    some { s with
      mem := copyBytes s.mem dst len s.message
      log := s.log ++ [.copy dst len]
      pc := .nextWrite q }
  | .nextWrite q => some { s with pc := .nextNum q (read32 s.mem (ptr q idxWrite)) }
  | .nextNum q write =>
    let next := (write + 1) % 2 ^ 32 % read32 s.mem (ptr q entryNum)
    some { s with
      mem := write32 s.mem (ptr q idxWrite) next
      log := s.log ++ [.store32 (ptr q idxWrite)]
      pc := .idle }

/-- The buffer, with room for the headers of both queues. -/
structure Buffer where
  base : Nat
  size : Nat
  room : 2 * headerSize + entryMsgSize * 4 ≤ size
  bounded : base + size ≤ 2 ^ 64

/-- SPM begins to push a message, goes on with it, or the partition stores a byte. -/
inductive Label
  | push (message : Memory) (queueNum : QueueNum)
  | spm
  | sp (a : Nat) (v : UInt8)

def step (b : Buffer) (s : System) : Label → Option System
  | .push message queueNum =>
    if s.pc = .idle then
      some { s with pc := walk queueNum.toNat b.base, message := message }
    else none
  | .spm => spmStep s
  | .sp a v =>
    if b.base ≤ a ∧ a < b.base + b.size then
      some { s with mem := Function.update s.mem a v }
    else none

/-! ### The property -/

/-- The access stays in the buffer, and copies bytes of the message only. -/
def Access.Inside (b : Buffer) : Access → Prop
  | .copy dst len => len ≤ entryMsgSize ∧
      ∀ i < len, b.base ≤ ptr dst i ∧ ptr dst i < b.base + b.size
  | .store32 a => ∀ i < 4, b.base ≤ ptr a i ∧ ptr a i < b.base + b.size

instance (b : Buffer) : ∀ access, Decidable (Access.Inside b access)
  | .copy _ _ => inferInstanceAs (Decidable (_ ∧ _))
  | .store32 a =>
    inferInstanceAs (Decidable (∀ i < 4, b.base ≤ ptr a i ∧ ptr a i < b.base + b.size))

/-- Where a queue is. -/
def Buffer.queue (b : Buffer) : QueueNum → Nat
  | .blocking => b.base
  | .nonBlocking => b.base + (headerSize + entryMsgSize * 4)

/-- The number of its entries. -/
def Buffer.num (b : Buffer) : QueueNum → Nat
  | .blocking => 4
  | .nonBlocking => nonBlockingNum b.size

/-- The partition does not store into the number of entries, the size of an entry or the write
index of a queue. -/
def Respects (b : Buffer) : Label → Prop
  | .sp a _ => ∀ n, a < b.queue n ∨ b.queue n + idxRead ≤ a
  | .push _ _ | .spm => True

/-! ### The headers -/

variable {n : QueueNum}

variable {b : Buffer} {mem' : Memory}

theorem queue_end_le (b : Buffer) (n : QueueNum) : b.base ≤ b.queue n ∧
      b.queue n + headerSize + entryMsgSize * b.num n ≤ b.base + b.size := by
  have hroom := b.room
  cases n with
  | blocking =>
    simp only [Buffer.queue, Buffer.num, headerSize, entryMsgSize] at hroom ⊢
    omega
  | nonBlocking =>
    simp only [Buffer.queue, Buffer.num, nonBlockingNum, headerSize, entryMsgSize] at hroom ⊢
    omega

theorem entry_not_in_header (b : Buffer) (n n' : QueueNum) (hlo : b.queue n + headerSize ≤ a)
    (hhi : a < b.queue n + headerSize + entryMsgSize * b.num n) :
    a < b.queue n' ∨ b.queue n' + headerSize ≤ a := by
  cases n <;> cases n' <;>
    simp only [Buffer.queue, Buffer.num, headerSize, entryMsgSize] at hlo hhi ⊢ <;> omega

theorem header_disjoint (b : Buffer) {n' : QueueNum} (h : n ≠ n') :
    b.queue n + headerSize ≤ b.queue n' ∨ b.queue n' + headerSize ≤ b.queue n := by
  cases n <;> cases n' <;> simp only [Buffer.queue, headerSize, entryMsgSize] at h ⊢
  · exact absurd rfl h
  · omega
  · omega
  · exact absurd rfl h

theorem ptr_queue (b : Buffer) (n : QueueNum) {off : Nat}
    (h : off < headerSize + entryMsgSize * b.num n) : ptr (b.queue n) off = b.queue n + off := by
  have hend := queue_end_le b n
  have hbd := b.bounded
  exact Nat.mod_eq_of_lt (by omega)

theorem ptr_header (b : Buffer) (n : QueueNum) {off : Nat} (h : off < headerSize) :
    ptr (b.queue n) off = b.queue n + off :=
  ptr_queue b n (Nat.lt_add_right _ h)

/-- The headers are as they were set up, with the write index at an entry. -/
def HeadersOk (b : Buffer) (mem : Memory) : Prop :=
  ∀ n, read32 mem (b.queue n + entryNum) = b.num n ∧
    read32 mem (b.queue n + entrySize) = entryMsgSize ∧
    read32 mem (b.queue n + idxWrite) < b.num n

theorem HeadersOk.congr (h : HeadersOk b mem)
    (hsame : ∀ n x, b.queue n ≤ x → x < b.queue n + idxRead → mem' x = mem x) :
    HeadersOk b mem' := by
  intro n
  obtain ⟨hnum, hsize, hwr⟩ := h n
  have hfld : ∀ off, off + 4 ≤ idxRead →
      read32 mem' (b.queue n + off) = read32 mem (b.queue n + off) :=
    fun off hoff => read32_congr fun x hlo hhi => hsame n x (by omega) (by omega)
  rw [hfld entryNum (by decide), hfld entrySize (by decide), hfld idxWrite (by decide)]
  exact ⟨hnum, hsize, hwr⟩

/-- A new write index of a queue. -/
theorem HeadersOk.write (h : HeadersOk b mem) (hv : v < b.num n) (hnum : b.num n < 2 ^ 32) :
    HeadersOk b (write32 mem (b.queue n + idxWrite) v) := by
  intro n'
  obtain ⟨hnum', hsize, hwr⟩ := h n'
  obtain rfl | hn := eq_or_ne n' n
  · rw [read32_write32_of_ne (.inl (by simp only [entryNum, idxWrite]; omega)),
      read32_write32_of_ne (.inl (by simp only [entrySize, idxWrite]; omega)),
      read32_write32 mem (lt_trans hv hnum)]
    exact ⟨hnum', hsize, hv⟩
  · have hoth : ∀ off, off + 4 ≤ headerSize →
        read32 (write32 mem (b.queue n + idxWrite) v) (b.queue n' + off) =
          read32 mem (b.queue n' + off) := by
      intro off hoff
      have hdisj := header_disjoint b hn
      simp only [headerSize] at hoff hdisj
      exact read32_write32_of_ne (by simp only [idxWrite]; omega)
    rw [hoth entryNum (by decide), hoth entrySize (by decide), hoth idxWrite (by decide)]
    exact ⟨hnum', hsize, hwr⟩

theorem num_lt (b : Buffer) (n : QueueNum) : b.num n < 2 ^ 32 := by
  cases n with
  | blocking => exact (by decide : 4 < 2 ^ 32)
  | nonBlocking => exact Nat.mod_lt _ (by decide)

/-- What `sprt_queue_init` leaves: the header, and nothing written before it. -/
theorem sprtQueueInit_spec {queue num size : Nat} (hnum : num < 2 ^ 32) (hsize : size < 2 ^ 32)
    (h : sprtQueueInit mem queue num size = some mem') :
    0 < num ∧ read32 mem' (queue + entryNum) = num ∧ read32 mem' (queue + entrySize) = size ∧
      read32 mem' (queue + idxWrite) = 0 ∧ ∀ x < queue, mem' x = mem x := by
  unfold sprtQueueInit at h
  split at h
  · cases h
  simp only [entryNum, entrySize, idxWrite, idxRead, headerSize, add_zero] at h ⊢
  -- the entries that are cleared lie behind the header
  have hclr : ∀ a, a + 4 ≤ queue + 16 → read32 mem' a = read32 (write32 (write32 (write32
      (write32 mem queue num) (queue + 4) size) (queue + 8) 0) (queue + 12) 0) a := by
    intro a ha
    rw [← some.inj h]
    exact read32_congr fun x hlo hhi => if_neg (by omega)
  refine ⟨by omega, ?_, ?_, ?_, fun x hx => ?_⟩
  · rw [hclr queue (by omega), read32_write32_of_ne (.inl (by omega)),
      read32_write32_of_ne (.inl (by omega)), read32_write32_of_ne (.inl (by omega)),
      read32_write32 mem hnum]
  · rw [hclr (queue + 4) (by omega), read32_write32_of_ne (.inl (by omega)),
      read32_write32_of_ne (.inl (by omega)), read32_write32 _ hsize]
  · rw [hclr (queue + 8) (by omega), read32_write32_of_ne (.inl (by omega)),
      read32_write32 _ (by decide)]
  · rw [← some.inj h]
    refine (if_neg (by omega)).trans ?_
    rw [write32_of_lt (by omega), write32_of_lt (by omega), write32_of_lt (by omega),
      write32_of_lt hx]

theorem headersOk_of_init (h : sprtInitializeQueues mem b.base b.size = some mem') :
    HeadersOk b mem' := by
  unfold sprtInitializeQueues at h
  obtain ⟨mem₁, h₁, h₂⟩ := bind_eq_some_iff.mp h
  obtain ⟨-, hnum, hsize, hwr, -⟩ := sprtQueueInit_spec (by decide) (by decide) h₁
  obtain ⟨hpos, hnum', hsize', hwrite', hkeep⟩ :=
    sprtQueueInit_spec (num_lt b .nonBlocking) (by decide) h₂
  have hfst : ∀ off, off + 4 ≤ headerSize →
      read32 mem' (b.base + off) = read32 mem₁ (b.base + off) := by
    intro off hoff
    exact read32_congr fun x _ hhi => hkeep x (by omega)
  intro n
  cases n with
  | blocking =>
    simp only [Buffer.queue, Buffer.num]
    rw [hfst entryNum (by decide), hfst entrySize (by decide), hfst idxWrite (by decide),
      hnum, hsize, hwr]
    exact ⟨rfl, rfl, by decide⟩
  | nonBlocking =>
    simp only [Buffer.queue, Buffer.num]
    rw [hnum', hsize', hwrite']
    exact ⟨rfl, rfl, hpos⟩

/-! ### One access -/

/-- What SPM has read so far in this push. -/
def PcOk (b : Buffer) : Pc → Prop
  | .idle => True
  | .walkNum k q => k = 0 ∧ q = b.queue .blocking
  | .walkSize k q num => k = 0 ∧ q = b.queue .blocking ∧ num = b.num .blocking
  | .fullWrite q | .fullNum q _ | .fullRead q _ | .dstSize q | .nextWrite q | .nextNum q _ =>
    ∃ n, q = b.queue n
  | .dstWrite q size => (∃ n, q = b.queue n) ∧ size = entryMsgSize
  | .copySize q dst => ∃ n, q = b.queue n ∧ ∃ i < b.num n,
      dst = b.queue n + (headerSize + entryMsgSize * i % 2 ^ 32)

/-- The headers, the push in progress and what has been written so far are in order. -/
structure Ok (b : Buffer) (s : System) : Prop where
  headers : HeadersOk b s.mem
  pc : PcOk b s.pc
  log : ∀ access ∈ s.log, access.Inside b

variable {s s' : System}

theorem Ok.read (h : Ok b s) {pc : Pc} (hpc : PcOk b pc) : Ok b { s with pc := pc } :=
  ⟨h.headers, hpc, h.log⟩

theorem copy_inside (b : Buffer) {i : Nat} (hi : i < b.num n) :
    b.queue n + (headerSize + entryMsgSize * i % 2 ^ 32) + entryMsgSize ≤
      b.queue n + headerSize + entryMsgSize * b.num n := by
  have hmod : entryMsgSize * i % 2 ^ 32 ≤ entryMsgSize * i := Nat.mod_le _ _
  simp only [entryMsgSize] at hmod ⊢
  omega

theorem Ok.copy (h : Ok b s) {i : Nat} (hi : i < b.num n) : Ok b { s with
      mem := copyBytes s.mem (b.queue n + (headerSize + entryMsgSize * i % 2 ^ 32)) entryMsgSize
        s.message
      log := s.log ++ [.copy (b.queue n + (headerSize + entryMsgSize * i % 2 ^ 32)) entryMsgSize]
      pc := .nextWrite (b.queue n) } := by
  have hin := copy_inside b hi
  have hend := queue_end_le b n
  have hbd := b.bounded
  have hlo : b.queue n + headerSize ≤ b.queue n + (headerSize + entryMsgSize * i % 2 ^ 32) := by
    omega
  generalize b.queue n + (headerSize + entryMsgSize * i % 2 ^ 32) = dst at hin hlo ⊢
  refine ⟨h.headers.congr fun n' x hx hx' => ?_, ⟨n, rfl⟩,
    forall_mem_append.mpr ⟨h.log, forall_mem_singleton.mpr ⟨le_rfl, fun j hj => ?_⟩⟩⟩
  · -- the header lies before or behind the entry
    refine if_neg ?_
    rintro ⟨hlt, hoff⟩
    have hnot := entry_not_in_header b n n' (a := x) (by omega) (by omega)
    simp only [headerSize, idxRead] at hnot hx'
    omega
  · have hptr : ptr dst j = dst + j := Nat.mod_eq_of_lt (by omega)
    omega

theorem Ok.store (h : Ok b s) (hv : v < b.num n) : Ok b { s with
      mem := write32 s.mem (b.queue n + idxWrite) v
      log := s.log ++ [.store32 (b.queue n + idxWrite)]
      pc := .idle } := by
  refine ⟨h.headers.write hv (num_lt b n), trivial,
    forall_mem_append.mpr ⟨h.log, forall_mem_singleton.mpr fun i hi => ?_⟩⟩
  have hend := queue_end_le b n
  have hbd := b.bounded
  simp only [headerSize, idxWrite] at hend ⊢
  have hptr : ptr (b.queue n + 8) i = b.queue n + 8 + i := Nat.mod_eq_of_lt (by omega)
  omega

theorem Ok.spmStep (h : Ok b s) (hstep : spmStep s = some s') : Ok b s' := by
  have hpc := h.pc
  unfold Queue.spmStep at hstep
  generalize hs : s.pc = v at hpc hstep
  cases v with
  | idle =>
    cases hstep
  | walkNum =>
    cases hstep
    obtain ⟨rfl, rfl⟩ := hpc
    refine h.read ⟨rfl, rfl, ?_⟩
    rw [ptr_header b .blocking (by decide)]
    exact (h.headers .blocking).1
  | walkSize =>
    cases hstep
    obtain ⟨rfl, rfl, rfl⟩ := hpc
    refine h.read ⟨.nonBlocking, ?_⟩
    rw [ptr_header b .blocking (show entrySize < headerSize by decide), (h.headers .blocking).2.1]
    have hend := queue_end_le b .nonBlocking
    have hbd := b.bounded
    simp only [Buffer.queue, Buffer.num, headerSize, entryMsgSize] at hend ⊢
    exact Nat.mod_eq_of_lt (by omega)
  | fullWrite | fullNum =>
    cases hstep
    exact h.read hpc
  | fullRead =>
    simp only at hstep
    split_ifs at hstep
    · cases hstep
      exact h.read trivial
    · cases hstep
      exact h.read hpc
  | dstSize =>
    cases hstep
    obtain ⟨n, rfl⟩ := hpc
    refine h.read ⟨⟨n, rfl⟩, ?_⟩
    rw [ptr_header b n (by decide)]
    exact (h.headers n).2.1
  | dstWrite =>
    cases hstep
    obtain ⟨⟨n, rfl⟩, rfl⟩ := hpc
    rw [ptr_header b n (show idxWrite < headerSize by decide)]
    obtain ⟨-, -, hwr⟩ := h.headers n
    refine h.read ⟨n, rfl, _, hwr, ?_⟩
    have hin := copy_inside b hwr
    have hend := queue_end_le b n
    have hbd := b.bounded
    simp only [headerSize, entryMsgSize] at hin hend ⊢
    exact Nat.mod_eq_of_lt (by omega)
  | copySize =>
    cases hstep
    obtain ⟨n, rfl, i, hi, rfl⟩ := hpc
    rw [ptr_header b n (by decide), (h.headers n).2.1]
    exact h.copy hi
  | nextWrite =>
    cases hstep
    exact h.read hpc
  | nextNum =>
    cases hstep
    obtain ⟨n, rfl⟩ := hpc
    obtain ⟨hnum, -, hwr⟩ := h.headers n
    simp only [ptr_header b n (show idxWrite < headerSize by decide),
      ptr_header b n (show entryNum < headerSize by decide), hnum]
    exact h.store (Nat.mod_lt _ (by omega))

theorem Ok.step (h : Ok b s) {l : Label} (hl : Respects b l) (hstep : step b s l = some s') :
    Ok b s' := by
  cases l with
  | push message queueNum =>
    simp only [Queue.step] at hstep
    split_ifs at hstep
    cases hstep
    refine ⟨h.headers, ?_, h.log⟩
    cases queueNum with
    | blocking => exact ⟨.blocking, rfl⟩
    | nonBlocking => exact ⟨rfl, rfl⟩
  | spm => exact h.spmStep hstep
  | sp a v =>
    simp only [Queue.step] at hstep
    split_ifs at hstep
    cases hstep
    refine ⟨h.headers.congr fun n x hlo hhi => ?_, h.pc, h.log⟩
    have hne : x ≠ a := by
      rcases hl n with hlt | hle <;> omega
    exact Function.update_of_ne hne v s.mem

/-! ### Pushes -/

/-- **SPM writes inside the shared buffer.** Over every interleaving of pushes and stores of the
partition, from buffers that have been set up: as long as the partition does not store into the
number of entries, the size of an entry or the write index of a queue, everything that
`sprt_push_message` writes lies in the buffer, and what it copies is the message. -/
theorem push_inside_buffer (b : Buffer) (mem mem' message : Memory)
    (hinit : sprtInitializeQueues mem b.base b.size = some mem') (ls : List Label) (s : System)
    (hrun : run (step b) ⟨mem', .idle, message, []⟩ ls = some s)
    (hrespects : ∀ l ∈ ls, Respects b l) : ∀ access ∈ s.log, access.Inside b := by
  have hok : Ok b ⟨mem', .idle, message, []⟩ :=
    ⟨headersOk_of_init hinit, trivial, fun access h => absurd h not_mem_nil⟩
  have hal : Along (step b) (fun _ l => Respects b l) ⟨mem', .idle, message, []⟩ ls :=
    along_of_forall hrespects
  exact (run_invariant_along (fun _ _ _ h => Ok.step h) hok hal hrun).log

/-- A page for a buffer. -/
def page : Buffer := ⟨0x1000, 0x1000, by decide, by decide⟩

/-- The page after the queues have been set up in it. -/
def readyPage : Memory :=
  (sprtInitializeQueues (fun _ => 0xff) page.base page.size).get (by decide)

theorem readyPage_eq : sprtInitializeQueues (fun _ => 0xff) page.base page.size = some readyPage :=
  (some_get _).symm

/-- The partition sets its read index, and SPM pushes a message. -/
def pushAfterRead : List Label :=
  .sp 0x100c 3 :: .push (fun _ => 0x55) .blocking :: replicate 8 .spm

theorem push_inside_buffer_page :
    ∃ s, run (step page) ⟨readyPage, .idle, fun _ => 0, []⟩ pushAfterRead = some s ∧
      .copy 0x1010 64 ∈ s.log ∧ ∀ access ∈ s.log, access.Inside page := by
  have hres : ∀ l ∈ pushAfterRead, Respects page l := by
    intro l hl
    simp only [pushAfterRead, mem_cons, mem_replicate] at hl
    rcases hl with rfl | rfl | ⟨-, rfl⟩
    · intro n
      cases n <;> decide
    · trivial
    · trivial
  refine exists_some_imp (by decide +kernel)
    fun s hrun hend => ⟨hend, ?_⟩
  exact push_inside_buffer page _ _ _ readyPage_eq pushAfterRead s hrun hres

/-- The partition makes entries of the first queue as large as the page. -/
def pushAfterResize : List Label :=
  .sp 0x1004 0 :: .sp 0x1005 0x10 :: .push (fun _ => 0x55) .blocking :: replicate 8 .spm

/-- EL3 then copies 4096 bytes, of which 64 are the message, and the last 16 of them go behind the
buffer. -/
theorem entry_size_overwritten :
    ∃ s, run (step page) ⟨readyPage, .idle, fun _ => 0, []⟩ pushAfterResize = some s ∧
      .copy 0x1010 0x1000 ∈ s.log ∧ ¬ Access.Inside page (.copy 0x1010 0x1000) ∧
      s.mem 0x2000 = 0x55 := by
  refine exists_some_imp (q := fun s => .copy 0x1010 0x1000 ∈ s.log ∧ s.mem 0x2000 = 0x55)
    (by decide +kernel) fun s _ ⟨hlog, hmem⟩ => ⟨hlog, fun h => absurd h.1 (by decide), hmem⟩

end TrustedFirmware.Spm.Queue
