import TrustedFirmware.Bl1.LoadedImages

/-!
# What BL1 hands control to

With assertions compiled out, nothing in `bl1_fwu_image_resume` checks the state of the
image that is resumed. An interrupted image that the normal world has reset and copied
anew is resumed like any other (`reset_image_resumed`).

As long as the image that was executed last is not reset, the secure world only gets
control in an image that was authenticated and is still what it was then
(`secure_handover_authentic`). The state is followed together with a record of that:
an image is authentic from its authentication until it is reset or a block is copied
into its memory.
-/

namespace TrustedFirmware.Bl1

open Lib Option ImageDesc

/-! ### Authentic images -/

/-- Two areas of memory have an address in common. -/
def AreasMeet (a : U64) (n : U32) (b : U64) (m : U32) : Prop :=
  n ≠ 0 ∧ m ≠ 0 ∧ a.toNat < b.toNat + m.toNat ∧ b.toNat < a.toNat + n.toNat
  deriving Decidable

/-- The memory of two images has an address in common. -/
abbrev ImageDesc.Meets (d e : ImageDesc) : Prop :=
  AreasMeet d.imageBase d.imageSize e.imageBase e.imageSize

/-- A block was copied into the memory of the image. -/
def ImageDesc.hit (d : ImageDesc) (copied : Option (U64 × U32)) : Bool :=
  copied.any fun block => AreasMeet block.1 block.2 d.imageBase d.imageSize

/-- The image that a call authenticates if it succeeds. -/
def FwuCall.authenticates : FwuCall → U32 → Bool
  | .auth imageId _ _ _, id => imageId = id
  | _, _ => false

/-- The image that a call resets if it succeeds. -/
def FwuCall.resets : FwuCall → U32 → Bool
  | .reset imageId, id => imageId = id
  | _, _ => false

/-- The service without assertions, with a record of the images that are authentic. -/
structure Tracked where
  fwu : FwuState
  authentic : U32 → Bool

/-- The record after a call. -/
def Tracked.record (t : Tracked) (call : FwuCall) (out : FwuOutcome) (id : U32) : Bool :=
  if call.authenticates id ∧ out.ret = 0 then true
  else t.authentic id &&
    (out.state.descs id).all fun d => !(call.resets id && d.state = .reset) && !d.hit out.copied

/-- One call. -/
def Tracked.step (t : Tracked) (call : FwuCall) : Option Tracked :=
  (bl1FwuSmcHandler ⟨false⟩ t.fwu call).map fun out => ⟨out.state, t.record call out⟩

/-- At the start no image is authentic. -/
def Tracked.start (s : FwuState) : Tracked := ⟨s, fun _ => false⟩

/-- A call that is no threat to the image that was executed last, nor to one that is
authenticated in place: the former is not reset, and the memory of the latter is not
that of an image which is being copied. -/
def CarefulCall (s : FwuState) : FwuCall → Prop
  | .reset imageId => imageId ≠ s.secExecImageId
  | .auth imageId _ imageSize _ => s.world = .secure → ∀ d ∈ s.descs imageId,
      d.secure = true → d.executable = true → d.imageBase.toNat + imageSize.toNat ≤ 2 ^ 64 ∧
        ∀ id ∈ s.loadedIds, ∀ e ∈ s.descs id, e.state = .copying →
          ¬ AreasMeet d.imageBase imageSize e.imageBase e.imageSize
  | .copy _ _ _ _ _ | .execute _ | .resume _ | .secImageDone | .updateDone => True

instance (s : FwuState) : (call : FwuCall) → Decidable (CarefulCall s call)
  | .reset _ => inferInstanceAs (Decidable (_ ≠ _))
  | .auth _ _ _ _ => inferInstanceAs (Decidable (_ → _))
  | .copy _ _ _ _ _ | .execute _ | .resume _ | .secImageDone | .updateDone =>
    inferInstanceAs (Decidable True)

/-! ### The invariant -/

/-- An image that can be executed and was authenticated. -/
def ImageDesc.Trusted (d : ImageDesc) : Prop :=
  d.secure = true ∧ d.executable = true ∧
    (d.state = .authenticated ∨ d.state = .executed ∨ d.state = .interrupted)

/-- An image whose memory no other image may be copied to. -/
def ImageDesc.Guarded (d : ImageDesc) : Prop :=
  d.state = .copying ∨ d.state = .copied ∨ d.Trusted

/-- Images that can be executed are authentic, and no image that is being copied shares
memory with another one that matters. -/
structure HandoverOk (boot : U32) (t : Tracked) : Prop where
  exec : ExecOk ⟨false⟩ t.fwu
  running : ∃ d, t.fwu.descs boot = some d ∧ d.state = .executed ∧ d.secure = false
  once : LoadedOnce t.fwu.loadedIds
  loaded : ∀ id d, t.fwu.descs id = some d → d.state ≠ .reset → id ≠ boot → id ∈ t.fwu.loadedIds
  fits : ∀ id d, t.fwu.descs id = some d → d.imageBase.toNat + d.imageMaxSize.toNat ≤ 2 ^ 64
  below : ∀ id d, t.fwu.descs id = some d → d.Guarded →
    d.imageBase.toNat + d.imageSize.toNat ≤ 2 ^ 64
  copied : ∀ id d, t.fwu.descs id = some d → d.state = .copying → d.copiedSize ≤ d.imageSize
  apart : ∀ i j d e, i ≠ j → t.fwu.descs i = some d → t.fwu.descs j = some e → d.Guarded →
    e.state = .copying → ¬ d.Meets e
  authentic : ∀ id d, t.fwu.descs id = some d → d.Trusted → t.authentic id = true

variable {boot imageId : U32} {t t' : Tracked} {d d' e : ImageDesc} {ids : List U32}

theorem ImageDesc.Meets.symm (h : d.Meets e) : e.Meets d :=
  ⟨h.2.1, h.1, h.2.2.2, h.2.2.1⟩

theorem HandoverOk.mem_of_guarded (h : HandoverOk boot t) (hd : t.fwu.descs imageId = some d)
    (hg : d.Guarded) : imageId ∈ t.fwu.loadedIds := by
  refine h.loaded imageId d hd ?_ (ne_boot_of_running h.running hd ?_)
  · rcases hg with hs | hs | ⟨-, -, hs | hs | hs⟩ <;> simp [hs]
  · rcases hg with hs | hs | ⟨hsec, -, -⟩
    · simp [hs]
    · simp [hs]
    · exact .inr hsec

/-- **One descriptor changes**, and the list and the record with it. -/
theorem HandoverOk.update (h : HandoverOk boot t)
    (hc : Changed ⟨false⟩ boot t.fwu imageId d d' t'.fwu)
    (hbel : d'.Guarded → d'.imageBase.toNat + d'.imageSize.toNat ≤ 2 ^ 64)
    (hcop : d'.state = .copying → d'.copiedSize ≤ d'.imageSize)
    (hap : ∀ j e, j ≠ imageId → t.fwu.descs j = some e → d'.Guarded → e.Guarded →
      d'.state = .copying ∨ e.state = .copying → ¬ d'.Meets e)
    (hauth : d'.Trusted → t'.authentic imageId = true)
    (hkeep : ∀ id e, id ≠ imageId → t.fwu.descs id = some e → e.Trusted →
      t.authentic id = true → t'.authentic id = true) : HandoverOk boot t' := by
  have hcas : ∀ id e, t'.fwu.descs id = some e →
      (id = imageId ∧ e = d') ∨ (id ≠ imageId ∧ t.fwu.descs id = some e) := by
    intro id e he
    obtain rfl | heq := eq_or_ne id imageId
    · exact .inl ⟨rfl, (some.inj (hc.self.symm.trans he)).symm⟩
    · exact .inr ⟨heq, (hc.of_ne heq).symm.trans he⟩
  refine ⟨hc.exec, ?_, hc.list.once, fun id e he hne hid => ?_, fun id e he => ?_,
    fun id e he hg => ?_, fun id e he hs => ?_, fun i j e f hij he hf hg hs => ?_,
    fun id e he ht => ?_⟩
  · rw [hc.of_ne (hc.ne_boot.symm)]
    exact h.running
  · rcases hcas id e he with ⟨rfl, rfl⟩ | ⟨hne', he'⟩
    · exact hc.listed (fun hused => h.loaded id d hc.was hused hc.ne_boot) hne
    · exact (hc.list.others id (h.exec.ne_invalid he') hne').mpr (h.loaded id e he' hne hid)
  · rcases hcas id e he with ⟨rfl, rfl⟩ | ⟨-, he'⟩
    · rw [hc.area.1, hc.area.2]
      exact h.fits id d hc.was
    · exact h.fits id e he'
  · rcases hcas id e he with ⟨rfl, rfl⟩ | ⟨-, he'⟩
    · exact hbel hg
    · exact h.below id e he' hg
  · rcases hcas id e he with ⟨rfl, rfl⟩ | ⟨-, he'⟩
    · exact hcop hs
    · exact h.copied id e he' hs
  · rcases hcas i e he with ⟨rfl, rfl⟩ | ⟨hi, he'⟩
    · rcases hcas j f hf with ⟨rfl, -⟩ | ⟨hj, hf'⟩
      · exact absurd rfl hij
      · exact hap j f hj hf' hg (.inl hs) (.inr hs)
    · rcases hcas j f hf with ⟨rfl, rfl⟩ | ⟨-, hf'⟩
      · exact fun hm => hap i e hi he' (.inl hs) hg (.inl hs) hm.symm
      · exact h.apart i j e f hij he' hf' hg hs
  · rcases hcas id e he with ⟨rfl, rfl⟩ | ⟨hne, he'⟩
    · exact hauth ht
    · exact hkeep id e hne he' ht (h.authentic id e he' ht)

variable {call : FwuCall} {out : FwuOutcome} {s : FwuState} {sized : ImageDesc}

/-- An image stays authentic if it is not reset and nothing is copied to it. -/
theorem Tracked.record_of_miss {id : U32}
    (hmiss : ∀ e, out.state.descs id = some e → e.hit out.copied = false)
    (hres : call.resets id = false) (h : t.authentic id = true) :
    t.record call out id = true := by
  unfold Tracked.record
  split
  · rfl
  · cases hd : out.state.descs id with
    | none => simp [h]
    | some e => simp [h, hres, hmiss e hd]

theorem ImageDesc.not_guarded (hst : d.state = .reset) : ¬ d.Guarded := by
  intro hg
  rcases hg with hs | hs | ⟨-, -, hs | hs | hs⟩ <;> simp [hst] at hs

section

variable (h : HandoverOk boot t)
include h

/-- **An image goes out of use**, or stays out of it. -/
theorem HandoverOk.update_reset
    (hc : Changed ⟨false⟩ boot t.fwu imageId d d' t'.fwu) (hst : d'.state = .reset)
    (hkeep : ∀ id, id ≠ imageId → t.authentic id = true → t'.authentic id = true) :
    HandoverOk boot t' := by
  have hnot := not_guarded hst
  exact h.update hc (fun hg => absurd hg hnot) (fun hs => absurd (.inl hs) hnot)
    (fun _ _ _ _ hg => absurd hg hnot) (fun ht => absurd (.inr (.inr ht)) hnot)
    fun id _ hid _ _ => hkeep id hid

/-- **An image that is copied or in use goes on** to another state. -/
theorem HandoverOk.update_state {st : ImageState}
    (hc : Changed ⟨false⟩ boot t.fwu imageId d { d with state := st } t'.fwu)
    (hg : d.Guarded) (hst : st ≠ .copying) (hauth : t'.authentic imageId = true)
    (hkeep : ∀ id, t.authentic id = true → t'.authentic id = true) :
    HandoverOk boot t' :=
  h.update hc (fun _ => h.below imageId d hc.was hg) (fun hs => absurd hs hst)
    (fun j e hj he _ _ hcop =>
      h.apart imageId j d e (hj.symm) hc.was he hg (hcop.resolve_left hst))
    (fun _ => hauth) fun id _ _ _ _ => hkeep id

omit h in
/-- An image that does not overlap those on the list. -/
theorem not_meets_of_overlapsAny {checked : ImageDesc} {id : U32}
    (hnone : overlapsAny ⟨false⟩ s imageId checked ids = some false) (hmem : id ∈ ids)
    (hinv : id ≠ invalidImageId) (hne : id ≠ imageId) (he : s.descs id = some e)
    (hbel : e.imageBase.toNat + e.imageSize.toNat ≤ 2 ^ 64)
    (hchecked : checked.imageBase.toNat + checked.imageSize.toNat ≤ 2 ^ 64) :
    ¬ checked.Meets e := by
  induction ids with
  | nil => exact absurd hmem List.not_mem_nil
  | cons id' ids ih =>
    rw [overlapsAny] at hnone
    cases hen : overlapsLoaded ⟨false⟩ s imageId checked id' with
    | none => simp [hen] at hnone
    | some overlap =>
      rw [hen] at hnone
      cases overlap with
      | true => simp at hnone
      | false =>
        rcases List.mem_cons.mp hmem with rfl | hmem
        · rw [overlapsLoaded, if_neg (not_or.mpr ⟨hinv, hne⟩), he] at hen
          intro hm
          obtain ⟨-, h0, hlo, hhi⟩ := hm
          have hend : e.imageEnd.toNat = e.imageBase.toNat + e.imageSize.toNat - 1 := by
            unfold imageEnd
            bv_omega
          have hend' : checked.imageEnd.toNat =
              checked.imageBase.toNat + checked.imageSize.toNat - 1 := by
            unfold imageEnd
            bv_omega
          simp only [Bool.false_eq_true, false_and, if_false, h0, some.injEq,
            decide_eq_false_iff_not, not_not, BitVec.lt_def, hend, hend'] at hen
          omega
        · exact ih hnone hmem

omit h in
/-- A block that is copied into the memory of an image misses the memory of images
apart from it. -/
theorem hit_eq_false {block : U32} (hbel : sized.imageBase.toNat + sized.imageSize.toNat ≤ 2 ^ 64)
    (hcop : sized.copiedSize ≤ sized.imageSize)
    (hblk : block ≤ sized.imageSize - sized.copiedSize) (hap : ¬ sized.Meets e) :
    e.hit (some (sized.imageBase + sized.copiedSize.setWidth 64, block)) = false := by
  simp only [hit, any_some, decide_eq_false_iff_not]
  intro hm
  obtain ⟨hn, hm0, hlo, hhi⟩ := hm
  refine hap ⟨?_, hm0, ?_, ?_⟩
  · bv_omega
  · bv_omega
  · bv_omega

/-- The memory of an image that a block is copied to is apart from that of others. -/
theorem HandoverOk.copyAllowed {imageSize : U32} (hd : t.fwu.descs imageId = some d)
    (hall : CopyAllowed ⟨false⟩ t.fwu imageId imageSize d sized) :
    sized.imageBase.toNat + sized.imageSize.toNat ≤ 2 ^ 64 ∧ sized.copiedSize ≤ sized.imageSize ∧
      ∀ j e, j ≠ imageId → t.fwu.descs j = some e → e.Guarded → ¬ sized.Meets e := by
  cases hall with
  | first hst hsize hmax hchk =>
    have hfits := h.fits imageId d hd
    have hbel : d.imageBase.toNat + imageSize.toNat ≤ 2 ^ 64 := by
      have hmaxNat : imageSize.toNat ≤ d.imageMaxSize.toNat := hmax
      omega
    refine ⟨hbel, by bv_omega, fun j e hj he hg => ?_⟩
    rw [bl1FwuImageCheckOverlaps, FwuState.setDesc_self] at hchk
    obtain ⟨overlap, hnone, hret⟩ := map_eq_some_iff.mp hchk
    obtain rfl : overlap = false := by
      cases overlap with
      | true => cases hret
      | false => rfl
    have hej : (t.fwu.setDesc imageId { d with imageSize := imageSize }).descs j = some e := by
      rw [FwuState.setDesc_of_ne _ _ hj]
      exact he
    have hmt := not_meets_of_overlapsAny hnone (h.mem_of_guarded he hg)
      (h.exec.ne_invalid he) hj hej (h.below j e he hg) hbel
    exact hmt
  | next hst =>
    refine ⟨h.below imageId d hd (.inl hst), h.copied imageId d hd hst,
      fun j e hj he hge hm => ?_⟩
    exact h.apart j imageId e d hj he hd hge hst hm.symm

/-- **One move** keeps the invariant. -/
theorem HandoverOk.move (hcall : CarefulCall t.fwu call)
    (hm : Move ⟨false⟩ t.fwu call imageId d d' out) :
    HandoverOk boot ⟨out.state, t.record call out⟩ := by
  have hc := hm.changed h.exec h.once h.running (by rintro rfl; exact fun _ => hcall)
  have htru : d.Trusted → t.authentic imageId = true := h.authentic imageId d hc.was
  have hkeep : ∀ id, (∀ e, out.state.descs id = some e → e.hit out.copied = false) →
      call.resets id = false → t.authentic id = true → t.record call out id = true :=
    fun id => Tracked.record_of_miss
  have hyes : call.authenticates imageId = true → out.ret = 0 →
      t.record call out imageId = true := fun hcall hret => if_pos ⟨hcall, hret⟩
  cases hm with
  | size n c hd hst =>
    exact h.update_reset hc hst fun id _ => hkeep id (fun _ _ => rfl) rfl
  | @block _ _ _ _ _ _ sized _ _ block hd hall _ hblk =>
    obtain ⟨hbel, hle, hap⟩ := h.copyAllowed hd hall
    have hnot : ¬ (sized.advance block).Trusted := by
      intro ht
      obtain ⟨-, -, hst⟩ := ht
      unfold advance at hst
      split at hst <;> simp at hst
    refine h.update hc (fun _ => hbel) (fun _ => ?_)
      (fun j e hj he _ hge _ => hap j e hj he hge) (fun ht => absurd ht hnot)
      fun id e hid he ht hauth => ?_
    · show sized.copiedSize + block ≤ sized.imageSize
      bv_omega
    · refine hkeep id (fun e' he' => ?_) rfl hauth
      cases ((hc.of_ne hid).trans he).symm.trans he'
      exact hit_eq_false hbel hle hblk (hap id e hid he (.inr (.inr ht)))
  | verified hd hst =>
    exact h.update_state hc (.inr (.inl hst)) (by decide)
      (hyes (by simp [FwuCall.authenticates]) rfl) fun id => hkeep id (fun _ _ => rfl) rfl
  | rejected => exact h.update_reset hc rfl fun id _ => hkeep id (fun _ _ => rfl) rfl
  | @verifiedInPlace _ _ imageSize _ _ _ hd hst hpl _ =>
    -- If it can be executed, the secure world has asked for it.
    have hcare : ({ d with imageSize := imageSize, state := .authenticated } : ImageDesc).Guarded →
        d.imageBase.toNat + imageSize.toNat ≤ 2 ^ 64 ∧ ∀ id ∈ t.fwu.loadedIds,
          ∀ e ∈ t.fwu.descs id, e.state = .copying →
            ¬ AreasMeet d.imageBase imageSize e.imageBase e.imageSize := by
      intro hg
      obtain ⟨hsec, hexe, -⟩ := (hg.resolve_left (by simp)).resolve_left (by simp)
      refine hcall (hpl.resolve_right ?_) d hd hsec hexe
      exact fun hno => absurd (hno.symm.trans hsec) (by decide)
    refine h.update hc (fun hg => (hcare hg).1) (fun hs => by simp at hs)
      (fun j e _ he hg hge hcop => ?_) (fun _ => hyes (by simp [FwuCall.authenticates]) rfl)
      fun id _ _ _ _ => hkeep id (fun _ _ => rfl) rfl
    exact (hcare hg).2 j (h.mem_of_guarded he hge) e he (hcop.resolve_left (by simp))
  | rejectedInPlace hd hst =>
    exact h.update_reset hc hst fun id _ => hkeep id (fun _ _ => rfl) rfl
  | execute hd hsec hexe hst =>
    have ht : d.Trusted := ⟨hsec, hexe, .inl hst⟩
    exact h.update_state hc (.inr (.inr ht)) (by decide)
      (hkeep _ (fun _ _ => rfl) rfl (htru ht)) fun id => hkeep id (fun _ _ => rfl) rfl
  | interrupt hd hw =>
    obtain ⟨e, he, hsec, hexe, hst⟩ := h.exec.secure hw
    cases hd.symm.trans he
    have ht : d.Trusted := ⟨hsec, hexe, .inr (.inl hst)⟩
    exact h.update_state hc (.inr (.inr ht)) (by decide)
      (hkeep _ (fun _ _ => rfl) rfl (htru ht)) fun id => hkeep id (fun _ _ => rfl) rfl
  | resume hd hw hasr =>
    obtain ⟨hsec, hexe, -⟩ := h.exec.nonSecure hw d hd
    have ht : d.Trusted := ⟨hsec, hexe, .inr (.inr (h.exec.resumable hw hd hasr))⟩
    exact h.update_state hc (.inr (.inr ht)) (by decide)
      (hkeep _ (fun _ _ => rfl) rfl (htru ht)) fun id => hkeep id (fun _ _ => rfl) rfl
  | done => exact h.update_reset hc rfl fun id _ => hkeep id (fun _ _ => rfl) rfl
  | reset =>
    exact h.update_reset hc rfl fun id hid => hkeep id (fun _ _ => rfl) (decide_eq_false (hid.symm))

/-- **One call** keeps the invariant. -/
theorem HandoverOk.step (hcall : CarefulCall t.fwu call)
    (hstep : t.step call = some t') : HandoverOk boot t' := by
  obtain ⟨out, hout, rfl⟩ := map_eq_some_iff.mp hstep
  rcases bl1FwuSmcHandler_moves hout with ⟨hs, hc⟩ | ⟨imageId, d, d', hm⟩
  · rw [hs]
    refine { h with authentic := fun id e he ht => ?_ }
    have hd : t.fwu.descs id = some e := he
    have hused : e.state ≠ .reset := fun hr => not_guarded hr (.inr (.inr ht))
    simp [Tracked.record, h.authentic id e hd ht, hs, hd, hused, hc, hit]
  · exact h.move hcall hm

omit h in
/-- The state in which a firmware update starts, with images inside the address space. -/
theorem FwuState.Started.handoverOk (h : s.Started boot)
    (hfits : ∀ id d, s.descs id = some d → d.imageBase.toNat + d.imageMaxSize.toNat ≤ 2 ^ 64) :
    HandoverOk boot (Tracked.start s) := by
  have hgrd : ∀ id d, s.descs id = some d → ¬ d.Guarded := by
    intro id d hd hg
    by_cases hboot : id = boot
    · obtain ⟨e, he, hexec, hsec⟩ := h.running
      rw [hboot] at hd
      cases hd.symm.trans he
      rcases hg with hs | hs | ⟨hyes, -, -⟩
      · simp [hexec] at hs
      · simp [hexec] at hs
      · simp [hsec] at hyes
    · exact not_guarded (h.reset id d hd hboot) hg
  refine ⟨h.execOk, h.running, fun id hid => ?_, fun id d hd hne hboot => ?_, hfits,
    fun id d hd hg => absurd hg (hgrd id d hd),
    fun id d hd hs => absurd (.inl hs) (hgrd id d hd),
    fun i _ d _ _ hd _ hg => absurd hg (hgrd i d hd),
    fun id d hd ht => absurd (.inr (.inr ht)) (hgrd id d hd)⟩
  · have hnone : id ∉ s.loadedIds := fun hmem => hid (h.loadedIds id hmem)
    show s.loadedIds.count id ≤ 1
    rw [List.count_eq_zero_of_not_mem hnone]
    exact Nat.zero_le 1
  · exact absurd (h.reset id d hd hboot) hne

/-- What the normal world resumes was interrupted. -/
theorem HandoverOk.interrupted (hw : t.fwu.world = .nonSecure)
    (hstep : t.step call = some t') (hw' : t'.fwu.world = .secure) :
    ∀ p, call = .resume p → ∃ d, t.fwu.descs t.fwu.secExecImageId = some d ∧
      d.state = .interrupted := by
  intro p hp
  subst hp
  obtain ⟨out, hout, rfl⟩ := map_eq_some_iff.mp hstep
  rcases bl1FwuSmcHandler_moves hout with ⟨hs, -⟩ | ⟨imageId, d, d', hm⟩
  · cases (hs ▸ hw).symm.trans hw'
  · cases hm with
    | interrupt hd hsec => cases hw.symm.trans hsec
    | resume hd _ hasr => exact ⟨d, hd, h.exec.resumable hw hd hasr⟩

end

/-- **What the secure world runs** when it gets control in a run of careful calls: an
image that was authenticated, and whose memory is still what it was then; and the image
that the normal world resumes is one that was interrupted. -/
theorem secure_handover_authentic {boot : U32} {s : FwuState} {t t' : Tracked}
    {calls : List FwuCall} {call : FwuCall} (hstart : s.Started boot)
    (hfits : ∀ id d, s.descs id = some d → d.imageBase.toNat + d.imageMaxSize.toNat ≤ 2 ^ 64)
    (hcalls : Along Tracked.step (fun t => CarefulCall t.fwu) (Tracked.start s) calls)
    (hrun : run Tracked.step (Tracked.start s) calls = some t)
    (hcall : CarefulCall t.fwu call) (hstep : t.step call = some t')
    (hw : t.fwu.world = .nonSecure) (hw' : t'.fwu.world = .secure) :
    t'.authentic t'.fwu.secExecImageId = true ∧
    ∀ p, call = .resume p → ∃ d, t.fwu.descs t.fwu.secExecImageId = some d ∧
      d.state = .interrupted := by
  have hok : HandoverOk boot t := run_invariant_along (fun _ _ _ => HandoverOk.step)
    (hstart.handoverOk hfits) hcalls hrun
  refine ⟨?_, hok.interrupted hw hstep hw'⟩
  have hok' := hok.step hcall hstep
  obtain ⟨d, hd, hsec, hexe, hst⟩ := hok'.exec.secure hw'
  exact hok'.authentic _ d hd ⟨hsec, hexe, .inr (.inl hst)⟩

/-- An image that was interrupted is resumed. -/
theorem secure_handover_authentic_resumed :
    ∃ t t', run Tracked.step (Tracked.start sampleImages)
        [.copy 1 0x8000 0x20 0x20 acceptAll, .auth 1 0 0 acceptAll, .execute 1, .resume 7] =
          some t ∧
      t.step (.resume 8) = some t' ∧ t.fwu.world = .nonSecure ∧ t'.fwu.world = .secure ∧
      t'.authentic t'.fwu.secExecImageId = true := by
  have hfits : ∀ id d, sampleImages.descs id = some d →
      d.imageBase.toNat + d.imageMaxSize.toNat ≤ 2 ^ 64 := by
    intro id d hd
    simp only [sampleImages] at hd
    split_ifs at hd <;> obtain rfl := some.inj hd <;> decide
  simp only [exists_and_left]
  refine exists_some_imp (q := fun t => t.fwu.world = .nonSecure ∧
    ∃ t', t.step (.resume 8) = some t' ∧ t'.fwu.world = .secure) (by decide +kernel)
    fun t hrun hend => ?_
  obtain ⟨hw, t', hstep, hw'⟩ := hend
  refine ⟨t', hstep, hw, hw', ?_⟩
  have hcall : CarefulCall t.fwu (.resume 8) := trivial
  exact (secure_handover_authentic sampleImages_started hfits (by decide +kernel) hrun hcall hstep
    hw hw').1

/-- The normal world resets the image that was interrupted, copies other contents to its
memory and resumes it: the secure world runs what was never authenticated. -/
theorem reset_image_resumed :
    ∃ t t', run Tracked.step (Tracked.start sampleImages)
        [.copy 1 0x8000 0x20 0x20 acceptAll, .auth 1 0 0 acceptAll, .execute 1, .resume 7,
          .reset 1, .copy 1 0xA000 0x20 0x20 acceptAll] = some t ∧
      t.step (.resume 8) = some t' ∧ t.fwu.world = .nonSecure ∧ t'.fwu.world = .secure ∧
      (t.fwu.descs t.fwu.secExecImageId).map ImageDesc.state = some .copied ∧
      t'.authentic t'.fwu.secExecImageId = false := by
  simp only [exists_and_left]
  decide +kernel

end TrustedFirmware.Bl1
