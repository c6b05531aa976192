import TtWind.Laws.Calls
import TtWind.Laws.Pack
import TtWind.Laws.Programs

/-!
# What CONFIGURE_TLB writes

Whatever the other threads and the device do in between, the dwords that reach a window's
registers are those of the packed configuration, in order; and a configuration that
CONFIGURE_TLB accepts is read off them field by field.
-/

set_option autoImplicit false

namespace TtWind

open TtWind.Effect TtWind.Effect.Prog

/-- The configuration passes the validation of CONFIGURE_TLB. -/
def NocTlbConfig.accepted (cfg : NocTlbConfig) : Bool :=
  cfg.addr &&& (tlb2mSize - 1) == 0 && cfg.inRange

/-- The register writes of a history, first to last. -/
def registerWrites : List Event → List (Nat × UInt32)
  | [] => []
  | ⟨.mmioWrite _ off v, _⟩ :: evs => registerWrites evs ++ [(off, v)]
  | _ :: evs => registerWrites evs

theorem registerWrites_append (evs evs' : List Event) :
    registerWrites (evs ++ evs') = registerWrites evs' ++ registerWrites evs := by
  induction evs with
  | nil => exact (List.append_nil _).symm
  | cons ev evs ih =>
    obtain ⟨o, x⟩ := ev
    cases o with
    | mmioWrite p off v =>
      show registerWrites (evs ++ evs') ++ [(off, v)] = _
      rw [ih, List.append_assoc]
      rfl
    | _ => exact ih

/-- A program without register writes leaves none in a history. -/
theorem registerWrites_eq_nil {α : Type} {p q : Drv α} {evs : List Event} (h : p.Leads evs q)
    (hp : p.Only fun o : Op => ∀ r off v, o ≠ .mmioWrite r off v) : registerWrites evs = [] := by
  have hnone := (h.only hp).2
  clear h
  induction evs with
  | nil => rfl
  | cons ev evs ih =>
    obtain ⟨o, x⟩ := ev
    have htail := ih fun ev hev => hnone ev (List.mem_cons_of_mem _ hev)
    cases o with
    | mmioWrite r off v => exact absurd rfl (hnone _ List.mem_cons_self r off v)
    | _ => exact htail

/-! ## The image, field by field -/

/-- The number read by the documented layout is the configuration, and no bit is set above it. -/
structure Decodes (n : Nat) (cfg : NocTlbConfig) : Prop where
  addr : field n 0 43 = (cfg.addr >>> tlb2mShift).toNat
  xEnd : field n 43 6 = cfg.xEnd.toNat
  yEnd : field n 49 6 = cfg.yEnd.toNat
  xStart : field n 55 6 = cfg.xStart.toNat
  yStart : field n 61 6 = cfg.yStart.toNat
  noc : field n 67 2 = cfg.noc.toNat
  mcast : field n 69 1 = cfg.mcast.toNat
  ordering : field n 70 2 = cfg.ordering.toNat
  linked : field n 72 1 = cfg.linked.toNat
  staticVc : field n 73 1 = cfg.staticVc.toNat
  above : field n 74 22 = 0

theorem NocTlbConfig.accepted_iff {cfg : NocTlbConfig} :
    cfg.accepted = true ↔ cfg.addr &&& (tlb2mSize - 1) = 0 ∧ cfg.inRange = true := by
  unfold NocTlbConfig.accepted
  rw [Bool.and_eq_true, beq_iff_eq]

theorem shifted_lt (a : UInt64) : (a >>> tlb2mShift).toNat < 2 ^ 43 := by
  have ha := a.toNat_lt
  rw [UInt64.toNat_shiftRight, show tlb2mShift.toNat % 64 = 21 from rfl, Nat.shiftRight_eq_div_pow]
  omega

/-- The packed image of an accepted configuration decodes to it. -/
theorem decodes_pack {cfg : NocTlbConfig} (h : cfg.accepted = true) :
    Decodes (image (packTlb2M cfg)) cfg := by
  obtain ⟨-, hr⟩ := NocTlbConfig.accepted_iff.mp h
  have hlt := packTlb2M_lt cfg
  have habove : field (image (packTlb2M cfg)) 74 22 = 0 := by
    rw [field, Nat.div_eq_of_lt hlt, Nat.zero_mod]
  simp only [NocTlbConfig.inRange, Bool.and_eq_true, decide_eq_true_eq, UInt16.le_iff_toNat_le,
    UInt8.le_iff_toNat_le] at hr
  obtain ⟨⟨⟨⟨⟨⟨⟨⟨hxe, hye⟩, hxs⟩, hys⟩, hnoc⟩, hmc⟩, hord⟩, hlk⟩, hvc⟩ := hr
  have hfit : ∀ {x m b : Nat}, x ≤ m → m < 2 ^ b → x % 2 ^ b = x :=
    fun hx hm => Nat.mod_eq_of_lt (Nat.lt_of_le_of_lt hx hm)
  rw [packTlb2M_image, tlb2mFields] at habove ⊢
  constructor
  case above => exact habove
  all_goals
    simp (disch := decide) only [List.map_cons, field_packFields_tail, Nat.reduceSub,
      field_packFields_head, UInt16.toNat_toUInt64, UInt8.toNat_toUInt64]
  · exact Nat.mod_eq_of_lt (shifted_lt cfg.addr)
  · exact hfit hxe (by decide)
  · exact hfit hye (by decide)
  · exact hfit hxs (by decide)
  · exact hfit hys (by decide)
  · exact hfit hnoc (by decide)
  · exact hfit hmc (by decide)
  · exact hfit hord (by decide)
  · exact hfit hlk (by decide)
  · exact hfit hvc (by decide)

/-- A number says at most one accepted configuration. -/
theorem Decodes.unpack {n : Nat} {cfg : NocTlbConfig} (h : Decodes n cfg)
    (ha : cfg.accepted = true) : unpackTlb2M n = cfg := by
  obtain ⟨haligned, -⟩ := NocTlbConfig.accepted_iff.mp ha
  have haddr : UInt64.ofNat (field n 0 43) <<< tlb2mShift = cfg.addr := by
    rw [h.addr, ← Nat.mod_eq_of_lt (shifted_lt cfg.addr)]
    exact aligned_addr haligned
  rw [unpackTlb2M, haddr, h.xEnd, h.yEnd, h.xStart, h.yStart, h.noc, h.mcast, h.ordering, h.linked,
    h.staticVc]
  simp only [UInt16.ofNat_toNat, UInt8.ofNat_toNat]

/-! ## The registers -/

/-- The writes that put a register image of three dwords in place. -/
def imageWrites (tlbId : Nat) (lo mid hi : UInt32) : List (Nat × UInt32) :=
  [(tlbId * tlbRegSize, lo), (tlbId * tlbRegSize + 4, mid), (tlbId * tlbRegSize + 8, hi)]

/-- The number three dwords make. -/
def dwords (lo mid hi : UInt32) : Nat := lo.toNat + mid.toNat * 2 ^ 32 + hi.toNat * 2 ^ 64

theorem image_dwords (img : UInt64 × UInt32) :
    image img = dwords img.1.toUInt32 (img.1 >>> 32).toUInt32 img.2 := by
  have hlt := img.1.toNat_lt
  rw [image, dwords, UInt64.toNat_toUInt32, UInt64.toNat_toUInt32, UInt64.toNat_shiftRight,
    show (32 : UInt64).toNat % 64 = 32 from rfl, Nat.shiftRight_eq_div_pow]
  omega

/-- What programming a window writes: the packed image, and 0 to the strided register there is. -/
theorem programTlb2M_writes {tlbId : Nat} {cfg : NocTlbConfig} {evs : List Event}
    (h : (programTlb2M tlbId cfg).Leads evs (.pure ())) :
    registerWrites evs =
      imageWrites tlbId (packTlb2M cfg).1.toUInt32 ((packTlb2M cfg).1 >>> 32).toUInt32 (packTlb2M cfg).2 ++
        if tlbId < tlbStridedCount then
          [(tlbStridedRegsOffset + tlbId * tlbStridedRegSize, 0)] else [] := by
  unfold programTlb2M at h
  obtain ⟨c, rest₁, rfl, h₁⟩ := leads_vis.mp h
  obtain ⟨_, rest₂, rfl, h₂⟩ := leads_vis.mp h₁
  obtain ⟨_, rest₃, rfl, h₃⟩ := leads_vis.mp h₂
  obtain ⟨_, rest₄, rfl, h₄⟩ := leads_vis.mp h₃
  simp only [registerWrites_append]
  split at h₄
  · rename_i hst
    obtain ⟨c', rest₅, rfl, h₅⟩ := leads_vis.mp h₄
    obtain ⟨_, rest₆, rfl, h₆⟩ := leads_vis.mp h₅
    obtain ⟨rfl, -⟩ := leads_pure.mp h₆
    rw [if_pos hst]
    rfl
  · rename_i hst
    obtain ⟨rfl, -⟩ := leads_pure.mp h₄
    rw [if_neg hst]
    rfl

/-- The part of CONFIGURE_TLB under StateLock writes by programming the window, or not at all. -/
theorem configureLocked_programs {fo : FileObject} {tlbId : Nat} {cfg : NocTlbConfig}
    {evs : List Event} (h : (configureLocked fo tlbId cfg).Leads evs (.pure .success)) :
    ∃ program, (programTlb2M tlbId cfg).Leads program (.pure ()) ∧
      registerWrites evs = registerWrites program := by
  unfold configureLocked at h
  obtain ⟨c, e₁, e₂, rfl, hload, h₁⟩ := leads_bind.mp h
  have hloaded := registerWrites_eq_nil hload ⟨nofun, fun _ _ => trivial⟩
  dsimp only at h₁
  split at h₁
  · rename_i hbad
    rw [← (leads_pure.mp h₁).2] at hbad
    exact absurd hbad (by decide)
  split at h₁
  · cases (leads_pure.mp h₁).2
  obtain ⟨_, program, rest, rfl, hprogram, h₂⟩ := leads_bind.mp h₁
  obtain ⟨rfl, -⟩ := leads_pure.mp h₂
  exact ⟨program, hprogram, by simp only [registerWrites_append, hloaded, List.nil_append]⟩

/-- CONFIGURE_TLB, when it succeeds, has read a window and an accepted configuration, and has programmed it. -/
theorem configureTlb_programs {fileObject : Option FileObject} {evs : List Event}
    (h : (ioctlConfigureTlb fileObject).Leads evs (.pure .success)) :
    ∃ tlbId cfg read program, Read32 evs 0 tlbId ∧ (inTlbConfig 8).Leads read (.pure cfg) ∧ read <:+: evs ∧
      cfg.accepted = true ∧ (programTlb2M tlbId.toNat cfg).Leads program (.pure ()) ∧
      registerWrites evs = registerWrites program := by
  unfold ioctlConfigureTlb at h
  cases fileObject with
  | none => cases (leads_pure.mp h).2
  | some fo =>
    obtain ⟨status, e₁, e₂, rfl, hin, h₁⟩ := leads_bind.mp h
    split at h₁
    · rename_i hbad
      obtain ⟨-, rfl⟩ := leads_pure.mp h₁
      exact absurd hbad (by decide)
    obtain ⟨reserved, e₃, e₄, rfl, hr, h₂⟩ := leads_bind.mp h₁
    obtain ⟨reserved0, e₅, e₆, rfl, hr0, h₃⟩ := leads_bind.mp h₂
    obtain ⟨reserved1, e₇, e₈, rfl, hr1, h₄⟩ := leads_bind.mp h₃
    split at h₄
    · cases (leads_pure.mp h₄).2
    obtain ⟨cfg, e₉, e₁₀, rfl, hcfg, h₅⟩ := leads_bind.mp h₄
    split at h₅
    · cases (leads_pure.mp h₅).2
    split at h₅
    · cases (leads_pure.mp h₅).2
    rename_i haligned hrange
    obtain ⟨tlbId, e₁₁, e₁₂, rfl, hid, h₆⟩ := leads_bind.mp h₅
    obtain ⟨u, e₁₃, e₁₄, rfl, hacq, h₇⟩ := leads_bind.mp h₆
    obtain ⟨status', e₁₅, e₁₆, rfl, hlocked, h₈⟩ := leads_bind.mp h₇
    obtain ⟨u', e₁₇, e₁₈, rfl, hrel, h₉⟩ := leads_bind.mp h₈
    obtain ⟨rfl, rfl⟩ := leads_pure.mp h₉
    obtain ⟨program, hprogram, hwrites⟩ := configureLocked_programs hlocked
    have hinput := registerWrites_eq_nil hcfg (inTlbConfig_only (fun _ _ => nofun) 8)
    have hstatus := registerWrites_eq_nil hin ⟨nofun, fun _ _ => trivial⟩
    have hreserved := registerWrites_eq_nil hr ⟨nofun, fun _ _ => trivial⟩
    have hreserved0 := registerWrites_eq_nil hr0 ⟨nofun, fun _ _ => trivial⟩
    have hreserved1 := registerWrites_eq_nil hr1 ⟨nofun, fun _ _ => trivial⟩
    have htlbId := registerWrites_eq_nil hid ⟨nofun, fun _ _ => trivial⟩
    have hacquired := registerWrites_eq_nil hacq ⟨nofun, fun _ _ => trivial⟩
    have hreleased := registerWrites_eq_nil hrel ⟨nofun, fun _ _ => trivial⟩
    have haccepted : cfg.accepted = true := by
      apply NocTlbConfig.accepted_iff.mpr
      constructor
      · simpa using haligned
      · simpa using hrange
    have hread : Read32 e₁₁ 0 tlbId := by
      obtain ⟨n, rest, rfl, hpure⟩ := leads_vis.mp hid
      obtain ⟨rfl, rfl⟩ := leads_pure.mp hpure
      exact ⟨n, List.mem_singleton_self _, rfl⟩
    refine ⟨tlbId, cfg, e₉, program, ?_, hcfg, ?_, haccepted, hprogram, ?_⟩
    · obtain ⟨n, hn, heq⟩ := hread
      exact ⟨n, by simp [hn], heq⟩
    · exact ⟨e₁₇ ++ e₁₅ ++ e₁₃ ++ e₁₁, e₇ ++ e₅ ++ e₃ ++ e₁, by simp only [List.append_assoc, List.nil_append]⟩
    · simp only [registerWrites_append, hinput, hstatus, hreserved, hreserved0, hreserved1, htlbId,
        hacquired, hreleased, hwrites, List.nil_append, List.append_nil]

/-- TLB packing is lossless. The dwords that programming a window writes decode to the
configuration, whatever happens in between; CONFIGURE_TLB programs, and writes nothing else, only
what it accepts, into the window that the request names; and two accepted configurations that differ are written as different dwords. -/
theorem tlb_packing_lossless :
    (∀ (cfg : NocTlbConfig) (tlbId : Nat) (evs : List Event), cfg.accepted = true →
      (programTlb2M tlbId cfg).Leads evs (.pure ()) →
        ∃ lo mid hi rest, registerWrites evs = imageWrites tlbId lo mid hi ++ rest ∧
          Decodes (dwords lo mid hi) cfg) ∧
    (∀ (fileObject : Option FileObject) (evs : List Event),
      (ioctlConfigureTlb fileObject).Leads evs (.pure .success) →
        ∃ tlbId cfg read program, Read32 evs 0 tlbId ∧ (inTlbConfig 8).Leads read (.pure cfg) ∧ read <:+: evs ∧
          cfg.accepted = true ∧ (programTlb2M tlbId.toNat cfg).Leads program (.pure ()) ∧
          registerWrites evs = registerWrites program) ∧
    ∀ (cfg cfg' : NocTlbConfig) (tlbId : Nat) (evs evs' : List Event), cfg.accepted = true →
      cfg'.accepted = true → cfg ≠ cfg' → (programTlb2M tlbId cfg).Leads evs (.pure ()) →
      (programTlb2M tlbId cfg').Leads evs' (.pure ()) →
        (registerWrites evs).take 3 ≠ (registerWrites evs').take 3 := by
  have hwritten : ∀ {cfg : NocTlbConfig} {tlbId : Nat} {evs : List Event}, cfg.accepted = true →
      (programTlb2M tlbId cfg).Leads evs (.pure ()) →
        ∃ lo mid hi rest, registerWrites evs = imageWrites tlbId lo mid hi ++ rest ∧
          Decodes (dwords lo mid hi) cfg := by
    intro cfg tlbId evs ha h
    refine ⟨_, _, _, _, programTlb2M_writes h, ?_⟩
    rw [← image_dwords]
    exact decodes_pack ha
  refine ⟨fun _ _ _ => hwritten, fun _ _ => configureTlb_programs, ?_⟩
  intro cfg cfg' tlbId evs evs' ha ha' hne h h' heq
  obtain ⟨lo, mid, hi, rest, hw, hd⟩ := hwritten ha h
  obtain ⟨lo', mid', hi', rest', hw', hd'⟩ := hwritten ha' h'
  have htake : ∀ {lo mid hi : UInt32} {rest : List (Nat × UInt32)},
      (imageWrites tlbId lo mid hi ++ rest).take 3 = imageWrites tlbId lo mid hi := fun {_ _ _ _} => rfl
  rw [hw, hw', htake, htake] at heq
  simp only [imageWrites, List.cons.injEq, Prod.mk.injEq, true_and, and_true] at heq
  obtain ⟨rfl, rfl, rfl⟩ := heq
  exact hne ((hd.unpack ha).symm.trans (hd'.unpack ha'))

/-- Handle 1 owns every window. -/
def ownsWindows : DeviceContext := { tlbRegs := some 3, tlbOwner := fun _ => some 1 }

/-- The second 2 MiB of the tile (8, 0). -/
def windowConfig : NocTlbConfig := { addr := 0x200000, xEnd := 8, yEnd := 0, ordering := 1 }

/-- CONFIGURE_TLB of window 40 by handle 1, latest first. -/
def configuresWindow : List Event :=
  [⟨.release .state, ()⟩, ⟨.mmioWrite (some 3) 488 (packTlb2M windowConfig).2, ()⟩,
    ⟨.mmioWrite (some 3) 484 ((packTlb2M windowConfig).1 >>> 32).toUInt32, ()⟩,
    ⟨.mmioWrite (some 3) 480 (packTlb2M windowConfig).1.toUInt32, ()⟩, ⟨.load, ownsWindows⟩, ⟨.load, ownsWindows⟩,
    ⟨.acquire .state, ()⟩, ⟨.inField 0 4, (40 : Nat)⟩, ⟨.inField 28 1, (0 : Nat)⟩, ⟨.inField 27 1, (0 : Nat)⟩,
    ⟨.inField 26 1, (1 : Nat)⟩, ⟨.inField 25 1, (0 : Nat)⟩, ⟨.inField 24 1, (0 : Nat)⟩, ⟨.inField 22 2, (0 : Nat)⟩,
    ⟨.inField 20 2, (0 : Nat)⟩, ⟨.inField 18 2, (0 : Nat)⟩, ⟨.inField 16 2, (8 : Nat)⟩,
    ⟨.inField 8 8, (0x200000 : Nat)⟩, ⟨.inField 32 8, (0 : Nat)⟩, ⟨.inField 29 3, (0 : Nat)⟩, ⟨.inField 4 4, (0 : Nat)⟩,
    ⟨.inputBuffer 40, NtStatus.success⟩]

theorem configuresWindow_leads : (ioctlConfigureTlb (some 1)).Leads configuresWindow (.pure .success) := by
  have h₀ : (ioctlConfigureTlb (some 1)).Leads [] (ioctlConfigureTlb (some 1)) := .start
  have h₁ := (((h₀.next NtStatus.success).next (0 : Nat)).next (0 : Nat)).next (0 : Nat)
  have h₂ := (((h₁.next (0x200000 : Nat)).next (8 : Nat)).next (0 : Nat)).next (0 : Nat)
  have h₃ := ((((((h₂.next (0 : Nat)).next (0 : Nat)).next (0 : Nat)).next (1 : Nat)).next (0 : Nat))).next (0 : Nat)
  have h₄ := ((h₃.next (40 : Nat)).next ()).next ownsWindows
  have h₅ := (((h₄.next ownsWindows).next ()).next ()).next ()
  exact h₅.next ()

/-- What is written into the registers of window 40 decodes to what was asked for. -/
theorem tlb_packing_lossless_window : (ioctlConfigureTlb (some 1)).Leads configuresWindow (.pure .success) ∧
    ∃ tlbId cfg lo mid hi rest, Read32 configuresWindow 0 tlbId ∧ cfg.accepted = true ∧
      registerWrites configuresWindow = imageWrites tlbId.toNat lo mid hi ++ rest ∧ Decodes (dwords lo mid hi) cfg := by
  have hleads := configuresWindow_leads
  obtain ⟨tlbId, cfg, read, program, hid, -, -, haccepted, hprogram, hwrites⟩ :=
    tlb_packing_lossless.2.1 (some 1) configuresWindow hleads
  obtain ⟨lo, mid, hi, rest, hlist, hdecodes⟩ := tlb_packing_lossless.1 cfg tlbId.toNat program haccepted hprogram
  exact ⟨hleads, tlbId, cfg, lo, mid, hi, rest, hid, haccepted, hwrites.trans hlist, hdecodes⟩

end TtWind
