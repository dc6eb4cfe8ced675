import Mathlib.Data.Nat.Basic
import Mathlib.Tactic.Common

/-!
# Reading DER elements from memory

A memory maps an address to the byte that can be read there; a read anywhere else is
undefined, and so is every function that makes one. "This code reads only bytes of a
range" is then "this code is defined on the memory that has been cut down to the range"
(`Mem.restrict`).

`getTag`, `getLen` and `getBool` are the readers of the usual ASN.1 libraries: a
pointer into the data, the end of the data, and for an element that is there the
pointer to its contents and their length. A reader that fails says why, and where it
left the pointer and the length.
-/

namespace TrustedFirmware.Lib

open Option

/-! ### Memory -/

/-- The bytes that can be read, by address. -/
abbrev Mem := Nat → Option UInt8

variable {m m' : Mem} {r' : Result}

namespace Mem

/-- The bytes of a list, from address 0 on. -/
def ofList (bytes : List UInt8) : Mem := fun a => bytes[a]?

/-- The memory without the bytes outside `[lo, hi)`. -/
def restrict (m : Mem) (lo hi : Nat) : Mem := fun a => if lo ≤ a ∧ a < hi then m a else none

theorem restrict_of_mem {lo hi a : Nat} (hlo : lo ≤ a) (hhi : a < hi) :
    m.restrict lo hi a = m a := if_pos ⟨hlo, hhi⟩

/-- The `n` bytes at `p`. -/
def bytes (m : Mem) (p : Nat) : Nat → Option (List UInt8)
  | 0 => some []
  | n + 1 => do
    let b ← m p
    let bs ← m.bytes (p + 1) n
    some (b :: bs)

theorem bytes_congr {n p : Nat} (h : ∀ a, p ≤ a → a < p + n → m a = m' a) :
    m.bytes p n = m'.bytes p n := by
  induction n generalizing p with
  | zero => rfl
  | succ n ih =>
    have hhead : m p = m' p := h p le_rfl (by omega)
    have htail : m.bytes (p + 1) n = m'.bytes (p + 1) n :=
      ih fun a ha ha' => h a (by omega) (by omega)
    simp [bytes, hhead, htail]

theorem exists_bytes {n p : Nat} (h : ∀ a, p ≤ a → a < p + n → ∃ b, m a = some b) :
    ∃ bs, m.bytes p n = some bs := by
  induction n generalizing p with
  | zero => exact ⟨[], rfl⟩
  | succ n ih =>
    obtain ⟨b, hb⟩ := h p le_rfl (by omega)
    obtain ⟨bs, hbs⟩ := ih (p := p + 1) fun a ha ha' => h a (by omega) (by omega)
    exact ⟨b :: bs, by simp [bytes, hb, hbs]⟩

/-- The `n` bytes at `p` as a number, the first one the most significant. -/
def beValue (m : Mem) (p : Nat) : Nat → Option Nat
  | 0 => some 0
  | n + 1 => do
    let hi ← m.beValue p n
    let b ← m (p + n)
    some (hi * 256 + b.toNat)

theorem beValue_congr {p : Nat} {n : Nat} (h : ∀ a, p ≤ a → a < p + n → m a = m' a) :
    m.beValue p n = m'.beValue p n := by
  induction n with
  | zero => rfl
  | succ n ih =>
    have hlast : m (p + n) = m' (p + n) := h (p + n) (by omega) (by omega)
    have hinit : m.beValue p n = m'.beValue p n := ih fun a ha ha' => h a ha (by omega)
    simp [beValue, hinit, hlast]

theorem exists_beValue {p : Nat} {n : Nat} (h : ∀ a, p ≤ a → a < p + n → ∃ b, m a = some b) :
    ∃ v, m.beValue p n = some v := by
  induction n with
  | zero => exact ⟨0, rfl⟩
  | succ n ih =>
    obtain ⟨hi, hhi⟩ := ih fun a ha ha' => h a ha (by omega)
    obtain ⟨b, hb⟩ := h (p + n) (by omega) (by omega)
    exact ⟨hi * 256 + b.toNat, by simp [beValue, hhi, hb]⟩

end Mem

namespace Asn1

/-! ### The readers -/

/-- What a reader returns. -/
inductive Ret
  | ok
  | outOfData
  | unexpectedTag
  | invalidLength
  | lengthMismatch
  deriving DecidableEq, Repr

/-- The value a reader returns, the pointer it leaves and the length it leaves. -/
structure Result where
  ret : Ret
  p : Nat
  len : Nat
  deriving DecidableEq, Repr

/-- The element of length `len` that starts at `p` has to end before `e`. -/
def checkLen (p e len : Nat) : Result :=
  if e - p < len then ⟨.outOfData, p, len⟩ else ⟨.ok, p, len⟩

/-- Read the length of an element: one byte below 128, or the number of bytes that
follow with the length (at most 4). `len` is the length variable before the call. -/
def getLen (m : Mem) (p e len : Nat) : Option Result :=
  if e ≤ p then
    some ⟨.outOfData, p, len⟩
  else do
    let b ← m p
    if b.toNat < 128 then
      some (checkLen (p + 1) e b.toNat)
    else if b.toNat = 128 ∨ 132 < b.toNat then
      some ⟨.invalidLength, p, len⟩
    else if e - p < b.toNat - 128 + 1 then
      some ⟨.outOfData, p, len⟩
    else do
      let n ← m.beValue (p + 1) (b.toNat - 128)
      some (checkLen (p + 1 + (b.toNat - 128)) e n)

/-- Read the tag and the length of an element with the tag `tag`. -/
def getTag (m : Mem) (p e len : Nat) (tag : UInt8) : Option Result :=
  if e ≤ p then
    some ⟨.outOfData, p, len⟩
  else do
    let b ← m p
    if b = tag then getLen m (p + 1) e len else some ⟨.unexpectedTag, p, len⟩

def tagBoolean : UInt8 := 0x01
def tagInteger : UInt8 := 0x02
def tagBitString : UInt8 := 0x03
def tagOctetString : UInt8 := 0x04
def tagOid : UInt8 := 0x06
/-- `CONSTRUCTED | SEQUENCE` -/
def tagSequence : UInt8 := 0x30
/-- `CONTEXT_SPECIFIC | CONSTRUCTED | n` -/
def tagContext (n : UInt8) : UInt8 := 0xA0 + n

/-- Read a BOOLEAN: one byte of contents, which is skipped. -/
def getBool (m : Mem) (p e : Nat) : Option Result := do
  let r ← getTag m p e 0 tagBoolean
  if r.ret ≠ .ok then
    some r
  else if r.len ≠ 1 then
    some ⟨.invalidLength, r.p, r.len⟩
  else do
    let _ ← m r.p
    some ⟨.ok, r.p + 1, r.len⟩

/-- An AlgorithmIdentifier that has been read: the pointer behind it, and its OID. -/
structure Alg where
  p : Nat
  oidP : Nat
  oidLen : Nat
  deriving DecidableEq, Repr

/-- Read an AlgorithmIdentifier: a SEQUENCE of an OID and at most one element with the
parameters. -/
def getAlg (m : Mem) (p e : Nat) : Option (Except Ret Alg) := do
  let r ← getTag m p e 0 tagSequence
  if r.ret ≠ .ok then
    some (.error r.ret)
  else if e - r.p < 1 then
    some (.error .outOfData)
  else do
    let stop := r.p + r.len
    let oid ← getTag m r.p stop 0 tagOid
    if oid.ret ≠ .ok then
      some (.error oid.ret)
    else if oid.p + oid.len = stop then
      some (.ok ⟨stop, oid.p, oid.len⟩)
    else do
      let params ← getLen m (oid.p + oid.len + 1) stop 0
      if params.ret ≠ .ok then
        some (.error params.ret)
      else if params.p + params.len ≠ stop then
        some (.error .lengthMismatch)
      else
        some (.ok ⟨stop, oid.p, oid.len⟩)

/-! ### What they read -/

variable {p e : Nat}

theorem getLen_congr (h : ∀ a, p ≤ a → a < e → m a = m' a) (len : Nat) :
    getLen m p e len = getLen m' p e len := by
  unfold getLen
  by_cases hend : e ≤ p
  · rw [if_pos hend, if_pos hend]
  · rw [if_neg hend, if_neg hend, h p le_rfl (by omega)]
    cases m' p with
    | none => simp
    | some b =>
      simp only [bind_eq_bind, bind_some]
      by_cases hby : e - p < b.toNat - 128 + 1
      · simp only [hby, if_true]
      · have hval : m.beValue (p + 1) (b.toNat - 128) = m'.beValue (p + 1) (b.toNat - 128) :=
          Mem.beValue_congr fun a ha ha' => h a (by omega) (by omega)
        rw [hval]

theorem getTag_congr (h : ∀ a, p ≤ a → a < e → m a = m' a) (len : Nat) (tag : UInt8) :
    getTag m p e len tag = getTag m' p e len tag := by
  unfold getTag
  by_cases hend : e ≤ p
  · rw [if_pos hend, if_pos hend]
  · rw [if_neg hend, if_neg hend, h p le_rfl (by omega),
      getLen_congr (fun a ha ha' => h a (by omega) ha')]

/-! ### What they find -/

variable {len : Nat} {tag : UInt8} {r : Result}

theorem checkLen_ok {e n : Nat} (h : (checkLen p e n).ret = .ok) :
    n ≤ e - p ∧ checkLen p e n = ⟨.ok, p, n⟩ := by
  unfold checkLen at h ⊢
  by_cases hlt : e - p < n
  · simp [hlt] at h
  · exact ⟨not_lt.mp hlt, if_neg hlt⟩

/-- How a length is read: from its first byte, or from those that this one counts. -/
theorem getLen_ok_cases (h : getLen m p e len = some r) (hok : r.ret = .ok) :
    p < e ∧ r.p + r.len ≤ e ∧ ∃ b, m p = some b ∧
      (b.toNat < 128 ∧ r = ⟨.ok, p + 1, b.toNat⟩ ∨
        ¬ b.toNat < 128 ∧ ¬ (b.toNat = 128 ∨ 132 < b.toNat) ∧
          ∃ n, m.beValue (p + 1) (b.toNat - 128) = some n ∧
            r = ⟨.ok, p + 1 + (b.toNat - 128), n⟩) := by
  unfold getLen at h
  split_ifs at h with hend
  · cases h
    cases hok
  obtain ⟨b, hb, h⟩ := bind_eq_some_iff.mp h
  split_ifs at h with hsh hinv hby
  · cases h
    obtain ⟨hle, heq⟩ := checkLen_ok hok
    rw [heq]
    exact ⟨by omega, by simp only; omega, b, hb, .inl ⟨hsh, rfl⟩⟩
  · cases h
    cases hok
  · cases h
    cases hok
  · obtain ⟨n, hn, h⟩ := bind_eq_some_iff.mp h
    cases h
    obtain ⟨hle, heq⟩ := checkLen_ok hok
    rw [heq]
    exact ⟨by omega, by simp only; omega, b, hb, .inr ⟨hsh, hinv, n, hn, rfl⟩⟩

/-- An element that is there lies before the end of the data, and is found with every
other end that it fits before. -/
theorem getLen_ok (h : getLen m p e len = some r) (hok : r.ret = .ok) : p < r.p ∧ r.p + r.len ≤ e ∧
      ∀ e' len', r.p + r.len ≤ e' → getLen m p e' len' = some r := by
  obtain ⟨-, hle, b, hb, ⟨hsh, rfl⟩ | ⟨hsh, hinv, n, hn, rfl⟩⟩ := getLen_ok_cases h hok
  · refine ⟨by simp, hle, fun e' len' he' => ?_⟩
    simp only at he'
    rw [getLen, if_neg (by omega), hb]
    simp only [bind_eq_bind, bind_some]
    rw [if_pos hsh, checkLen, if_neg (by omega)]
  · refine ⟨by simp only; omega, hle, fun e' len' he' => ?_⟩
    simp only at he'
    rw [getLen, if_neg (by omega), hb]
    simp only [bind_eq_bind, bind_some]
    rw [if_neg hsh, if_neg hinv, if_neg (by omega), hn]
    simp only [bind_some]
    rw [checkLen, if_neg (by omega)]

theorem getTag_ok_tag (h : getTag m p e len tag = some r) (hok : r.ret = .ok) :
    p < e ∧ m p = some tag ∧ getLen m (p + 1) e len = some r := by
  unfold getTag at h
  split_ifs at h with hend
  · cases h
    cases hok
  obtain ⟨b, hb, h⟩ := bind_eq_some_iff.mp h
  split_ifs at h with htag
  · exact ⟨not_le.mp hend, htag ▸ hb, h⟩
  · cases h
    cases hok

theorem getTag_ok (h : getTag m p e len tag = some r) (hok : r.ret = .ok) :
    p < r.p ∧ r.p + r.len ≤ e ∧
      ∀ e' len', r.p + r.len ≤ e' → getTag m p e' len' tag = some r := by
  obtain ⟨-, hb, h⟩ := getTag_ok_tag h hok
  obtain ⟨hlt, hle, hall⟩ := getLen_ok h hok
  refine ⟨by omega, hle, fun e' len' he' => ?_⟩
  rw [getTag, if_neg (by omega), hb]
  simp only [bind_eq_bind, bind_some, if_true]
  exact hall e' len' he'

theorem getLen_ret_ne (h : getLen m p e len = some r) : r.ret ≠ .unexpectedTag := by
  have hchk : ∀ q n, (checkLen q e n).ret ≠ .unexpectedTag := by
    intro q n
    unfold checkLen
    by_cases hlt : e - q < n <;> simp [hlt]
  unfold getLen at h
  split_ifs at h
  · cases h
    simp
  obtain ⟨b, -, h⟩ := bind_eq_some_iff.mp h
  split_ifs at h
  · cases h
    exact hchk _ _
  · cases h
    simp
  · cases h
    simp
  · obtain ⟨n, -, h⟩ := bind_eq_some_iff.mp h
    cases h
    exact hchk _ _

/-- Another tag is seen from the first byte, and the pointer stays before it. -/
theorem getTag_unexpectedTag (h : getTag m p e len tag = some r) (hret : r.ret = .unexpectedTag) :
    r.p = p ∧ ∀ e', p < e' → getTag m p e' len tag = some r := by
  unfold getTag at h
  split_ifs at h with hend
  · cases h
    cases hret
  obtain ⟨b, hb, h⟩ := bind_eq_some_iff.mp h
  split_ifs at h with htag
  · exact absurd hret (getLen_ret_ne h)
  · cases h
    refine ⟨rfl, fun e' he' => ?_⟩
    rw [getTag, if_neg (by omega), hb]
    simp only [bind_eq_bind, bind_some]
    rw [if_neg htag]

/-- An optional BOOLEAN is there, with one byte of contents, or something else is. -/
theorem getBool_cases (h : getBool m p e = some r) (hret : r.ret = .ok ∨ r.ret = .unexpectedTag) :
    ∃ t, getTag m p e 0 tagBoolean = some t ∧
      ((t.ret = .ok ∧ t.len = 1 ∧ (∃ b, m t.p = some b) ∧ r = ⟨.ok, t.p + 1, t.len⟩) ∨
        (t.ret = .unexpectedTag ∧ r = t)) := by
  obtain ⟨t, ht, h⟩ := bind_eq_some_iff.mp h
  refine ⟨t, ht, ?_⟩
  by_cases hok : t.ret = .ok
  · rw [if_neg (by simp [hok])] at h
    by_cases hlen : t.len = 1
    · rw [if_neg (by simp [hlen])] at h
      obtain ⟨b, hb, h⟩ := bind_eq_some_iff.mp h
      exact .inl ⟨hok, hlen, ⟨b, hb⟩, (some.inj h).symm⟩
    · rw [if_pos hlen] at h
      cases h
      simp at hret
  · rw [if_pos hok] at h
    cases h
    exact .inr ⟨hret.resolve_left hok, rfl⟩

theorem getBool_optional (h : getBool m p e = some r)
    (hret : r.ret = .ok ∨ r.ret = .unexpectedTag) :
    p ≤ r.p ∧ ∀ e', p < e' → r.p ≤ e' → getBool m p e' = some r := by
  obtain ⟨t, ht, ⟨hok, hlen, ⟨b, hb⟩, rfl⟩ | ⟨htag, rfl⟩⟩ := getBool_cases h hret
  · obtain ⟨hlt, -, hall⟩ := getTag_ok ht hok
    refine ⟨by simp only; omega, fun e' _ hle => ?_⟩
    simp only at hle
    unfold getBool
    rw [hall e' 0 (by omega)]
    simp [hok, hlen, hb]
  · obtain ⟨hp, hall⟩ := getTag_unexpectedTag ht htag
    refine ⟨by omega, fun e' hlt _ => ?_⟩
    unfold getBool
    rw [hall e' hlt]
    simp [htag]

/-! ### Data that is cut off -/

theorem checkLen_p {n : Nat} : (checkLen p e n).p = p := by
  unfold checkLen
  by_cases hlt : e - p < n <;> simp [hlt]

/-- A length that ends behind the end of the data: the reader stops at that end, or
before a byte that says how long the length is. -/
theorem getLen_cut {e' len' : Nat} (h : getLen m p e len = some r)
    (hok : r.ret = .ok) (hcut : e' ≤ r.p) (h' : getLen m p e' len' = some r') :
    e' ≤ r'.p ∨ ∃ b, m r'.p = some b ∧ 128 ≤ b.toNat := by
  unfold getLen at h'
  split_ifs at h' with hend
  · cases h'
    exact .inl hend
  obtain ⟨b, hb, h'⟩ := bind_eq_some_iff.mp h'
  obtain ⟨-, -, b', hb', hcases⟩ := getLen_ok_cases h hok
  cases hb.symm.trans hb'
  split_ifs at h' with hsh hinv hby
  · obtain ⟨-, rfl⟩ | ⟨hno, -⟩ := hcases
    · cases h'
      rw [checkLen_p]
      exact .inl hcut
    · exact absurd hsh hno
  · cases h'
    exact .inr ⟨b, hb, by omega⟩
  · cases h'
    exact .inr ⟨b, hb, by omega⟩
  · obtain ⟨hno, -⟩ | ⟨-, -, n, -, rfl⟩ := hcases
    · exact absurd hno hsh
    · obtain ⟨n', -, h'⟩ := bind_eq_some_iff.mp h'
      cases h'
      rw [checkLen_p]
      exact .inl hcut

/-- An optional BOOLEAN in data that is cut off: it is read all the same, or the reader
stops where no element with a one-byte tag below 128 can start. -/
theorem getBool_cut {e' : Nat} (h : getBool m p e = some r)
    (hret : r.ret = .ok ∨ r.ret = .unexpectedTag) (h' : getBool m p e' = some r') :
    r' = r ∨ e' ≤ r'.p ∨ ∃ b, m r'.p = some b ∧ 128 ≤ b.toNat := by
  by_cases hend : e' ≤ p
  · simp only [getBool, getTag, if_pos hend] at h'
    cases h'
    exact .inr (.inl hend)
  by_cases hle : r.p ≤ e'
  · rw [(getBool_optional h hret).2 e' (by omega) hle] at h'
    exact .inl (some.inj h').symm
  obtain ⟨t, ht, ⟨hok, hlen, -, rfl⟩ | ⟨htag, rfl⟩⟩ := getBool_cases h hret
  swap
  · have := (getTag_unexpectedTag ht htag).1
    omega
  simp only at hle
  obtain ⟨t', ht', h'⟩ := bind_eq_some_iff.mp h'
  have hfail : t'.ret ≠ .ok := by
    intro hok'
    -- both ends show the same element, which does not fit before the nearer one
    obtain ⟨-, hle', hall'⟩ := getTag_ok ht' hok'
    obtain ⟨-, -, hall⟩ := getTag_ok ht hok
    have hsame := hall (max (t.p + t.len) (t'.p + t'.len)) 0 (le_max_left _ _)
    rw [hall' _ 0 (le_max_right _ _)] at hsame
    cases hsame
    omega
  rw [if_pos hfail] at h'
  cases h'
  refine .inr ?_
  obtain ⟨-, hbyte, ht⟩ := getTag_ok_tag ht hok
  rw [getTag, if_neg hend, hbyte] at ht'
  exact getLen_cut ht hok (by omega) ht'

theorem getBool_congr {p e : Nat} (h : ∀ a, p ≤ a → a < e → m a = m' a) :
    getBool m p e = getBool m' p e := by
  unfold getBool
  rw [getTag_congr h]
  cases ht : getTag m' p e 0 tagBoolean with
  | none => simp
  | some t =>
    simp only [bind_eq_bind, bind_some]
    by_cases hok : t.ret = .ok
    · by_cases hlen : t.len = 1
      · obtain ⟨hlt, hle, -⟩ := getTag_ok ht hok
        simp only [hok, hlen, ne_eq, not_true, if_false, h t.p (by omega) (by omega)]
      · simp [hlen]
    · simp [hok]

variable (h : ∀ a < e, ∃ b, m a = some b)
include h

/-- Within data that is there, a reader never leaves it. -/
theorem exists_getLen (len : Nat) :
    ∃ r, getLen m p e len = some r := by
  unfold getLen
  split_ifs with hend
  · exact ⟨_, rfl⟩
  obtain ⟨b, hb⟩ := h p (by omega)
  simp only [hb, bind_eq_bind, bind_some]
  split_ifs with hsh hinv hby
  · exact ⟨_, rfl⟩
  · exact ⟨_, rfl⟩
  · exact ⟨_, rfl⟩
  · obtain ⟨v, hv⟩ : ∃ v, m.beValue (p + 1) (b.toNat - 128) = some v :=
      Mem.exists_beValue fun a _ ha => h a (by omega)
    exact ⟨_, by rw [hv]; rfl⟩

theorem exists_getTag (len : Nat) (tag : UInt8) :
    ∃ r, getTag m p e len tag = some r := by
  unfold getTag
  split_ifs with hend
  · exact ⟨_, rfl⟩
  obtain ⟨b, hb⟩ := h p (by omega)
  simp only [hb, bind_eq_bind, bind_some]
  split_ifs
  · exact exists_getLen h len
  · exact ⟨_, rfl⟩

/-- An AlgorithmIdentifier that is read lies within the data, with its OID. -/
theorem exists_getAlg :
    ∃ r, getAlg m p e = some r ∧ ∀ alg, r = .ok alg → alg.oidP + alg.oidLen ≤ e := by
  unfold getAlg
  obtain ⟨r, hr⟩ := exists_getTag (p := p) h 0 tagSequence
  simp only [hr, bind_eq_bind, bind_some]
  split_ifs with hret hone
  · exact ⟨_, rfl, nofun⟩
  · exact ⟨_, rfl, nofun⟩
  obtain ⟨-, hstop, -⟩ := getTag_ok hr (not_not.mp hret)
  have hinn : ∀ a < r.p + r.len, ∃ b, m a = some b := fun a ha => h a (by omega)
  obtain ⟨oid, hoid⟩ := exists_getTag (p := r.p) hinn 0 tagOid
  have hfd : oid.ret = .ok → ∀ alg, (.ok ⟨r.p + r.len, oid.p, oid.len⟩ : Except Ret Alg) = .ok alg →
      alg.oidP + alg.oidLen ≤ e := by
    rintro hok alg heq
    obtain rfl := Except.ok.inj heq
    exact Nat.le_trans (getTag_ok hoid hok).2.1 hstop
  simp only [hoid, bind_some]
  split_ifs with hoidRet
  · exact ⟨_, rfl, nofun⟩
  · exact ⟨_, rfl, hfd (not_not.mp hoidRet)⟩
  obtain ⟨params, hpar⟩ := exists_getLen (p := oid.p + oid.len + 1) hinn 0
  simp only [hpar, bind_some]
  split_ifs
  · exact ⟨_, rfl, nofun⟩
  · exact ⟨_, rfl, nofun⟩
  · exact ⟨_, rfl, hfd (not_not.mp hoidRet)⟩

end Asn1

end TrustedFirmware.Lib
