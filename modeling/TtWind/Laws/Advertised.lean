import TtWind.Laws.Replies
import TtWind.Laws.Sysmem

/-!
# What QUERY_SYSMEM advertises

The reply is written from one load of the context, and what the flag vouched for then still
stands when the request completes: the buffer goes only in a hardware callback, and none runs
beside a request.
-/

set_option autoImplicit false

namespace TtWind

open TtWind.Effect TtWind.Effect.Prog

/-- The fields of the reply: one channel, `maxMapBytes` wide at most, on the tile. -/
structure SysmemReply (size : UInt64) (maxMapBytes tile : UInt32) (b : Nat → UInt8) : Prop where
  totalSize : leNat b 0 8 = size.toNat
  nocAddress : leNat b 8 8 = nocPcieOffset.toNat
  deviceIoAddr : leNat b 16 8 = 0
  channelSize : leNat b 24 8 = size.toNat
  channelCount : leNat b 32 4 = 1
  maxMapBytes : leNat b 36 4 = maxMapBytes.toNat
  pcieTileX : leNat b 40 4 = tile.toNat
  reserved : leNat b 44 4 = 0

/-- The reply to a request that loaded the context. -/
def ReplyOf (c : DeviceContext) (b : Nat → UInt8) : Prop :=
  if c.sysmemVerified then SysmemReply c.sysmemSize c.sysmemSize.toUInt32 c.pcieTileX b
  else ∀ i < 48, b i = 0

/-- What the history of a QUERY_SYSMEM says of the reply it completes with. -/
def Replied (evs : List Event) : NtStatus × Nat → Prop
  | (s, n) => s = .success → n = 48 ∧
      ∃ c : DeviceContext, ⟨.load, c⟩ ∈ evs ∧ ∀ b, ReplyOf c (written b evs)

/-- A request completes with success only once its reply is written. -/
def RepliesFirst (evs : List Event) (o : Op) : Prop := ∀ s n, o = .complete s n → Replied evs (s, n)

theorem repliesFirst_of_ne {evs : List Event} {o : Op} (h : ∀ s n, o ≠ .complete s n) :
    RepliesFirst evs o := fun s n heq => absurd heq (h s n)

/-- The fields written over a zeroed buffer. -/
theorem sysmemReply_written (size : UInt64) (tile : UInt32) {b : Nat → UInt8} (hb : ∀ i < 48, b i = 0) :
    SysmemReply size size.toUInt32 tile (leStore (leStore (leStore (leStore (leStore (leStore
      (leStore b 0 8 size.toNat) 8 8 nocPcieOffset.toNat) 16 8 (0 : UInt64).toNat) 24 8 size.toNat)
      32 4 (1 : UInt32).toNat) 36 4 size.toUInt32.toNat) 40 4 tile.toNat) := by
  have h64 : ∀ v : UInt64, v.toNat % 256 ^ 8 = v.toNat := fun v => Nat.mod_eq_of_lt v.toNat_lt
  have h32 : ∀ v : UInt32, v.toNat % 256 ^ 4 = v.toNat := fun v => Nat.mod_eq_of_lt v.toNat_lt
  constructor
  case reserved =>
    simp (disch := omega) only [leNat_leStore_of_disjoint]
    exact leNat_eq_zero fun i _ hi => hb i (by omega)
  all_goals
    simp (disch := omega) only [leNat_leStore_of_disjoint, leNat_leStore, h64, h32]
  · rfl
  · rfl

theorem outSysmem_replies (c : DeviceContext) {evs : List Event} (hload : ⟨.load, c⟩ ∈ evs)
    (hzero : ∀ b, ∀ i < 48, written b evs i = 0) :
    (outSysmem c).Traced RepliesFirst
      (fun evs _ => ⟨.load, c⟩ ∈ evs ∧ ∀ b, ReplyOf c (written b evs)) evs := by
  have hout : ∀ {off len v : Nat} {evs : List Event}, RepliesFirst evs (.outField off len v) :=
    repliesFirst_of_ne nofun
  refine Traced.ite (fun hv => ?_) fun hv => ⟨hload, fun b => ?_⟩
  · refine ⟨hout, fun _ => ⟨hout, fun _ => ⟨hout, fun _ => ⟨hout, fun _ => ?_⟩⟩⟩⟩
    refine ⟨hout, fun _ => ⟨hout, fun _ => ⟨hout, fun _ => ⟨by simp [hload], fun b => ?_⟩⟩⟩⟩
    rw [ReplyOf, if_pos hv]
    exact sysmemReply_written _ _ (hzero b)
  · rw [ReplyOf, if_neg hv]
    exact hzero b

theorem ioctlQuerySysmem_replies (evs : List Event) :
    ioctlQuerySysmem.Traced RepliesFirst Replied evs := by
  have hother : ∀ {evs : List Event} {o : Op}, (∀ s n, o ≠ .complete s n) → RepliesFirst evs o :=
    fun h => repliesFirst_of_ne h
  refine ⟨hother nofun, fun (status : NtStatus) => Traced.ite (fun hbad hs => ?_) fun _ => ?_⟩
  · rw [hs] at hbad
    cases hbad
  refine ⟨hother nofun, fun _ => ⟨hother nofun, fun _ => ⟨hother nofun, fun (c : DeviceContext) => ?_⟩⟩⟩
  refine Traced.bind (p := outSysmem c) (outSysmem_replies c List.mem_cons_self fun b i hi => if_pos hi)
    fun _ evs h => ⟨hother nofun, fun _ _ => ⟨rfl, c, List.mem_cons_of_mem _ h.1, h.2⟩⟩

/-- The reply of a QUERY_SYSMEM is written from one load. -/
theorem querySysmem_replies (fileObject : Option FileObject) :
    (evtIoDeviceControl fileObject .querySysmem).Traced RepliesFirst (fun _ _ => True) [] := by
  have hother : ∀ {evs : List Event} {o : Op}, (∀ s n, o ≠ .complete s n) → RepliesFirst evs o :=
    fun h => repliesFirst_of_ne h
  have hdone : ∀ {evs : List Event} {s : NtStatus} {n : Nat}, Replied evs (s, n) →
      (op (.complete s n)).Traced RepliesFirst (fun _ _ => True) evs := by
    intro evs s n h
    refine ⟨fun s' n' heq => ?_, fun _ => trivial⟩
    obtain ⟨rfl, rfl⟩ := Op.complete.inj heq
    exact h
  have hstale : (isStale fileObject).Only fun o : Op => ∀ s n, o ≠ .complete s n :=
    isStale_only nofun (fun _ => nofun) fileObject
  refine Traced.bind (hstale.traced (fun _ _ => repliesFirst_of_ne) []) fun _ _ _ =>
    Traced.ite (fun _ => hdone nofun) fun _ => ⟨hother nofun, fun c => ?_⟩
  refine Traced.ite (fun _ => hdone nofun) fun _ => ?_
  exact Traced.bind (ioctlQuerySysmem_replies _) fun a evs h => hdone h

/-- The fields a buffer of one of the tiers is advertised with. -/
theorem ReplyOf.fresh {c : DeviceContext} {buffer : BufferView} {b : Nat → UInt8} (h : ReplyOf c b)
    (hc : Fresh c buffer) : (∀ i < 48, b i = 0) ∨
      SysmemReply buffer.size buffer.size.toUInt32 c.pcieTileX b ∧ buffer.Allocated ∧
        (c.pcieTileX = 2 ∨ c.pcieTileX = 11) := by
  by_cases hv : c.sysmemVerified = true
  · rw [ReplyOf, if_pos hv, hc.size] at h
    exact .inr ⟨h, hc.verified hv⟩
  · rw [ReplyOf, if_neg hv] at h
    exact .inl h

/-- The sizes tried fit a 32-bit field. -/
theorem tier_toUInt32 {size : UInt64} (h : size ∈ sysmemTiers) : size.toUInt32.toNat = size.toNat := by
  simp only [sysmemTiers, List.mem_cons, List.not_mem_nil, or_false] at h
  rcases h with rfl | rfl | rfl <;> decide

/-- Sysmem is advertised only when it works. While ArcLock is free, a set flag means that the buffer
is the live allocation the context names, the tile is known, no reset is in flight, the last arm
passed every stage, and what was last written to region 0 of the iATU is the buffer, as recorded.
And a QUERY_SYSMEM that succeeds replies with zeros, or with the one channel the live buffer
is, whose size no field cuts short. -/
theorem advertised_only_verified {c : WatchedConfig IatuRegs}
    (h : Reach (driver.observe iatuLog) anyStep c) :
    (c.world.1.arcLock = none → c.world.1.ctx.sysmemVerified = true →
      (∃ va, c.world.1.ctx.sysmemVa = some va ∧
        ⟨va, c.world.1.ctx.sysmemPhys, c.world.1.ctx.sysmemSize⟩ ∈ c.world.1.contiguous) ∧
      (c.world.1.ctx.pcieTileX = 2 ∨ c.world.1.ctx.pcieTileX = 11) ∧
      c.world.1.ctx.needsHwInit = false ∧ c.world.1.ctx.sysmemStage = .verified ∧
      outboundRegion c.world.2 0 =
        ⟨0, c.world.1.ctx.sysmemSize - 1, c.world.1.ctx.sysmemPhys, true⟩ ∧
      c.world.1.ctx.outboundIatu 0 = outboundRegion c.world.2 0) ∧
    ∀ fo n k, c.pool .ioctl = some (.vis (.complete .success n) k) →
      (evtIoDeviceControl fo .querySysmem).Leads (c.world.1.hist .ioctl)
        (.vis (.complete .success n) k) →
      n = 48 ∧ ((∀ i < 48, c.world.1.req.output i = 0) ∨
        ∃ maxMapBytes tile,
          SysmemReply c.world.1.ctx.sysmemSize maxMapBytes tile c.world.1.req.output ∧
          maxMapBytes.toNat = c.world.1.ctx.sysmemSize.toNat ∧ (tile = 2 ∨ tile = 11) ∧
          leNat c.world.1.req.output 32 4 * leNat c.world.1.req.output 24 8 =
            leNat c.world.1.req.output 0 8) := by
  have hinv := reach_sysmem h
  have hcurrent := reach_currentInv (reach_unwatched h)
  refine ⟨fun hlock hverified => ?_, fun fo n k hp hleads => ?_⟩
  · have hvouched : Vouched c.world.1.bufferView (armView c.world) := hinv.vouched hverified
    have hneeds : c.world.1.ctx.needsHwInit = false := by
      by_contra hn
      have hheld := hcurrent.unverified (by simpa using hn) hverified
      have hfree : c.forget.world.arcLock = none := hlock
      rw [hfree] at hheld
      cases hheld
    exact ⟨hvouched.buffer.live, hvouched.tile, hneeds, hvouched.stage, hvouched.region,
      hvouched.outbound.trans hvouched.region.symm⟩
  · have hlive : c.live .ioctl := Protocol.Sound.live_of_pool hp
    have hreplied : Replied (c.world.1.hist .ioctl) (.success, n) :=
      (hleads.traced (querySysmem_replies fo)).1 .success n rfl
    obtain ⟨hn, d, hload, hreply⟩ := hreplied rfl
    obtain ⟨b, hb⟩ := reach_written (reach_unwatched h) hlive
    have hb : c.world.1.req.output = written b (c.world.1.hist .ioctl) := hb
    refine ⟨hn, ?_⟩
    rw [hb]
    rcases (hreply b).fresh (hinv.loaded hlive d hload) with hzero | ⟨hfields, hallocated, htile⟩
    · exact .inl hzero
    · refine .inr ⟨_, _, hfields, tier_toUInt32 hallocated.tier, htile, ?_⟩
      rw [hfields.channelCount, hfields.channelSize, hfields.totalSize, Nat.one_mul]

/-- The probe `i` is read back as it was written. -/
def echoes (i : Nat) : List Choice :=
  plainOps 6 ++ [.word (probeMagic i)] ++ plainOps 7 ++ [.word (~~~probeMagic i)] ++ plainOps 1

/-- A card arrives; no mailbox answers its power-up, and the arm that follows passes. -/
def armingRun : List Move :=
  cardArrives 0x10000000 ++
    [.power .init 0, .ops .power (plainOps 2 ++ [.count 0] ++ plainOps 6 ++ [.word 0xFFFFFFFF] ++
      plainOps 6 ++ [.word 0xFFFFFFFF] ++ plainOps 2 ++ [.word 0xFFFFFFFF] ++ plainOps 7 ++ [.word 2] ++
      plainOps 25 ++ echoes 0 ++ echoes 1 ++ echoes 2 ++ plainOps 10), .ends .power]

/-- QUERY_SYSMEM by handle 1, with bytes of its own in the buffer. -/
def queryRequest : Request := { fileObject := some 1, outLen := 48, inBuf := fun _ => 0xFF }

theorem advertised_only_verified_queried :
    ∃ c : WatchedConfig IatuRegs, Reach (driver.observe iatuLog) anyStep c ∧
      outboundRegion c.world.2 0 = ⟨0, 0x3FFFFFFF, 0x10000000, true⟩ ∧
      ∃ maxMapBytes tile, SysmemReply 0x40000000 maxMapBytes tile c.world.1.req.output ∧
        maxMapBytes.toNat = 0x40000000 := by
  have hplay : (WatchedConfig.play iatuLog (fun _ _ _ => true)
      ((armingRun ++ opens 1 0).map .driver ++
        [.driver (.ioctl queryRequest .querySysmem 0), .driver (.ops .ioctl (plainOps 15))])
      (idle.watched fun _ => 0)).any (fun c =>
        WatchedConfig.succeeds (c.pool .ioctl) && (c.world.1.arcLock == none &&
          (c.world.1.ctx.sysmemVerified && (c.world.1.ctx.sysmemSize == 0x40000000 &&
            (c.world.1.ctx.sysmemPhys == 0x10000000 && c.world.1.req.output 3 == 0x40))))) = true := by
    decide +kernel
  have hinitial : iatuLog.initial {} fun _ => 0 := trivial
  obtain ⟨c, q, hreach, hend, hpool, hleads⟩ :=
    WatchedConfig.exists_reach_call (fun _ _ _ _ => trivial) hinitial hplay
  simp only [Bool.and_eq_true, beq_iff_eq] at hend
  obtain ⟨hdone, hlock, hverified, hsize, hphys, hbyte⟩ := hend
  obtain ⟨n, k, hcomplete⟩ := WatchedConfig.exists_of_succeeds hdone
  obtain rfl := Option.some.inj (hpool.symm.trans hcomplete)
  obtain ⟨hworks, hreplies⟩ := advertised_only_verified hreach
  obtain ⟨-, -, -, -, hregion, -⟩ := hworks hlock hverified
  rw [hsize, hphys] at hregion
  refine ⟨c, hreach, hregion, ?_⟩
  rcases (hreplies _ n k hcomplete hleads).2 with hzero | ⟨maxMapBytes, tile, hfields, hmax, -⟩
  · rw [hzero 3 (by decide)] at hbyte
    cases hbyte
  · rw [hsize] at hfields hmax
    exact ⟨maxMapBytes, tile, hfields, hmax⟩

end TtWind
