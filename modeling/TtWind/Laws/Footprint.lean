import TtWind.Driver.System

/-!
# What each program touches

Footprints of the driver's programs, proved once and used by every argument
about them. `Op.plain` operations change nothing but the request and the
thread's own history. `ArcScope` collects what a footprint must contain for the
code that runs on the device under ArcLock: its register accesses are through
pointers the code has seen mapped, and its stores stay within `ArcFrame`.

A footprint bounds what a program can do, whatever it is answered, as long as its loads answer
what `J` says. It does not say that the program does any of it, nor in which order: that is in the
histories (`Prog.Leads`) and in the modules about single functions.
-/

set_option autoImplicit false

namespace TtWind

open TtWind.Effect TtWind.Effect.Prog

/-! ## The fields of a request -/

/-- A field of the request was read with this value. -/
def Read32 (evs : List Event) (off : Nat) (v : UInt32) : Prop :=
  ∃ n : Nat, (⟨.inField off 4, n⟩ : Event) ∈ evs ∧ v = UInt32.ofNat n

/-- In the history a field of eight bytes was read at this offset, and was `v`. -/
def Read64 (evs : List Event) (off : Nat) (v : UInt64) : Prop :=
  ∃ n : Nat, (⟨.inField off 8, n⟩ : Event) ∈ evs ∧ v = UInt64.ofNat n

/-- The register blocks the driver maps. -/
inductive RegBlock where
  | tlbRegs
  | kernelTlb
  | arcApbAxi
  | bar2Iatu
  | nocIdRegs
  deriving DecidableEq, Repr

/-- The pointer to a block. -/
def DeviceContext.ptr (c : DeviceContext) : RegBlock → IoPtr
  | .tlbRegs => c.tlbRegs
  | .kernelTlb => c.kernelTlb
  | .arcApbAxi => c.arcApbAxi
  | .bar2Iatu => c.bar2Iatu
  | .nocIdRegs => c.nocIdRegs

/-- The answers a footprint argument may assume. -/
abbrev Answers := (o : Op) → o.Ans → Prop

namespace Op

/-- Operations that change nothing shared but the request's buffers. -/
def plain : Op → Prop
  | load | fileGen _ | getBusData _ _ | deadline _ | stall _ | numaNode
  | physicalAddress _ | memoryBarrier | allocMdl _ _ | freeMdl _ | openSection | closeSection
  | currentProcess | requestorProcess | exitPending _ | inputBuffer _ | outputBuffer _
  | inField _ _ | outZero _ | outField _ _ _ | queryProperty | complete _ _ => True
  | _ => False

/-- Those of them that neither touch the request's buffers nor complete it. -/
def silent : Op → Prop
  | inputBuffer _ | outputBuffer _ | inField _ _ | outZero _ | outField _ _ _ | complete _ _ => False
  | o => o.plain

/-- What touches no buffer of the request is plain all the more. -/
theorem silent.plain {o : Op} (h : o.silent) : o.plain := by
  cases o <;> first | exact h | exact (h : False).elim

end Op

/-- A store that changes only what the code under ArcLock records. -/
def ArcFrame (f : DeviceContext → DeviceContext) : Prop :=
  ∀ c, f c = { c with
    arcRoute := (f c).arcRoute
    sysmemVerified := (f c).sysmemVerified
    pcieTileX := (f c).pcieTileX
    sysmemStage := (f c).sysmemStage
    sysmemLastStatus := (f c).sysmemLastStatus
    sysmemNocIdRaw := (f c).sysmemNocIdRaw
    sysmemProbes := (f c).sysmemProbes
    outboundIatu := (f c).outboundIatu }

/-- A store of what the mailbox and the arm path record at any time. -/
def QuietFrame (f : DeviceContext → DeviceContext) : Prop :=
  ∀ c, f c = { c with arcRoute := (f c).arcRoute, sysmemLastStatus := (f c).sysmemLastStatus }

/-- A store of what restricting and unrestricting the device changes: it verifies nothing. -/
def RestrictFrame (f : DeviceContext → DeviceContext) : Prop :=
  ∀ c, f c = { c with
    needsHwInit := (f c).needsHwInit
    savedConfig := (f c).savedConfig
    savedConfigValid := (f c).savedConfigValid
    sysmemVerified := (f c).sysmemVerified } ∧
    ((f c).sysmemVerified = true → c.sysmemVerified = true)

/-- What may be recorded at any time may be recorded under ArcLock. -/
theorem QuietFrame.arc {f : DeviceContext → DeviceContext} (h : QuietFrame f) : ArcFrame f := by
  intro c
  have hverified : (f c).sysmemVerified = c.sysmemVerified := by rw [h c]
  have htile : (f c).pcieTileX = c.pcieTileX := by rw [h c]
  have hstage : (f c).sysmemStage = c.sysmemStage := by rw [h c]
  have hraw : (f c).sysmemNocIdRaw = c.sysmemNocIdRaw := by rw [h c]
  have hprobes : (f c).sysmemProbes = c.sysmemProbes := by rw [h c]
  have hiatu : (f c).outboundIatu = c.outboundIatu := by rw [h c]
  rw [hverified, htile, hstage, hraw, hprobes, hiatu]
  exact h c

/-- A load has shown the pointer to be mapped. -/
def SeenMapped (J : Answers) (get : DeviceContext → IoPtr) : Prop :=
  ∃ c, J .load c ∧ get c ≠ none

/-- A load has shown the AXI aperture to be mapped, or to be the discovered route. -/
def SeenAxi (J : Answers) : Prop :=
  ∃ c, J .load c ∧ (c.arcApbAxi ≠ none ∨ c.arcRoute = .axi)

/-- Register accesses through the pointer of any load are in the footprint. -/
def Reaches (J : Answers) (K : Op → Prop) (get : DeviceContext → IoPtr) : Prop :=
  ∀ c, J .load c → ∀ off, K (.mmioRead (get c) off) ∧ ∀ v, K (.mmioWrite (get c) off v)

/-- A register of one window: one of its three, or its strided one. -/
def WindowReg (tlbId off : Nat) : Prop :=
  off = tlbId * tlbRegSize ∨ off = tlbId * tlbRegSize + 4 ∨ off = tlbId * tlbRegSize + 8 ∨
    tlbId < tlbStridedCount ∧ off = tlbStridedRegsOffset + tlbId * tlbStridedRegSize

/-- What a footprint must contain for the mailbox, under ArcLock. -/
structure MailScope (J : Answers) (K : Op → Prop) : Prop where
  silent : ∀ o, o.silent → K o
  route : ∀ r, (r = .axi → SeenAxi J) → K (.store fun c => { c with arcRoute := r })
  regs : SeenMapped J (·.tlbRegs) → ∀ c, J .load c → ∀ off, WindowReg kernelTlbIndex off →
    K (.mmioRead c.tlbRegs off) ∧ ∀ v, K (.mmioWrite c.tlbRegs off v)
  window : SeenMapped J (·.kernelTlb) → Reaches J K (·.kernelTlb)
  axi : SeenAxi J → Reaches J K (·.arcApbAxi)

/-- A larger footprint will do. -/
theorem MailScope.mono {J : Answers} {K L : Op → Prop} (h : MailScope J K) (hK : ∀ o, K o → L o) :
    MailScope J L where
  silent o ho := hK _ (h.silent o ho)
  route r hr := hK _ (h.route r hr)
  regs hs c hc off ho := ⟨hK _ (h.regs hs c hc off ho).1, fun v => hK _ ((h.regs hs c hc off ho).2 v)⟩
  window hs c hc off := ⟨hK _ (h.window hs c hc off).1, fun v => hK _ ((h.window hs c hc off).2 v)⟩
  axi hs c hc off := ⟨hK _ (h.axi hs c hc off).1, fun v => hK _ ((h.axi hs c hc off).2 v)⟩

/-- Reads of the iATU through the pointer of any load are in the footprint. -/
def ReadsIatu (J : Answers) (K : Op → Prop) : Prop :=
  SeenMapped J (·.bar2Iatu) → ∀ c, J .load c → ∀ off, K (.mmioRead c.bar2Iatu off)

/-- None, or one of the two PCIe tiles there are. -/
def TileKnown (x : UInt32) : Prop := x = 0 ∨ x = 2 ∨ x = 11

/-- A store that leaves the detected tile, forgets it, or records one of the two there are. -/
def TileFrame (f : DeviceContext → DeviceContext) : Prop :=
  ∀ c, (f c).pcieTileX = c.pcieTileX ∨ TileKnown (f c).pcieTileX

/-- What a footprint must contain for the arm path, until it sets the verified flag. -/
structure ArcScope (J : Answers) (K : Op → Prop) : Prop extends MailScope J K where
  store : ∀ f, ArcFrame f → (∀ c, (f c).arcRoute = c.arcRoute) →
    (∀ c, (f c).sysmemVerified = c.sysmemVerified) → TileFrame f → K (.store f)
  iatu : SeenMapped J (·.bar2Iatu) → Reaches J K (·.bar2Iatu)
  nocId : SeenMapped J (·.nocIdRegs) → ∀ c, J .load c → ∀ off, K (.mmioRead c.nocIdRegs off)

/-- A store of what the loopback observed. -/
def ProbeFrame (f : DeviceContext → DeviceContext) : Prop :=
  ∀ c, f c = { c with sysmemProbes := (f c).sysmemProbes }

/-- What the loopback observed is recorded under ArcLock. -/
theorem ProbeFrame.arc {f : DeviceContext → DeviceContext} (h : ProbeFrame f) : ArcFrame f := by
  intro c
  rw [h c]

/-- The arm path records what the loopback observed. -/
theorem ArcScope.probes {J : Answers} {K : Op → Prop} (h : ArcScope J K)
    {f : DeviceContext → DeviceContext} (hf : ProbeFrame f) : K (.store f) := by
  apply h.store f hf.arc
  · intro c
    rw [hf c]
  · intro c
    rw [hf c]
  · intro c
    rw [hf c]
    exact .inl rfl

/-- Loads have shown the kernel window and its registers to be mapped. -/
structure SeenWindow (J : Answers) : Prop where
  regs : SeenMapped J (·.tlbRegs)
  window : SeenMapped J (·.kernelTlb)

section Arc

variable {J : Answers} {K : Op → Prop}

/-! ## Kernel NOC access -/

/-- Programming a window loads the pointer to the TLB registers and writes the registers of that window. -/
theorem programTlb2M_within (hl : K .load) {tlbId : Nat}
    (hw : ∀ c, J .load c → ∀ off, WindowReg tlbId off → ∀ v, K (.mmioWrite c.tlbRegs off v))
    (cfg : NocTlbConfig) : (programTlb2M tlbId cfg).Within J K := by
  refine ⟨hl, fun c hc => ?_⟩
  refine ⟨hw c hc _ (.inl rfl) _, fun _ _ => ⟨hw c hc _ (.inr (.inl rfl)) _, fun _ _ => ?_⟩⟩
  refine ⟨hw c hc _ (.inr (.inr (.inl rfl))) _, fun _ _ => ?_⟩
  refine Within.ite (fun hi => ⟨hl, fun c' hc' => ?_⟩) fun _ => trivial
  exact (within_perform _).mpr (hw c' hc' _ (.inr (.inr (.inr ⟨hi, rfl⟩))) _)

/-- The kernel's own window. -/
theorem programKernelTlb_within (h : MailScope J K) (hr : SeenMapped J (·.tlbRegs))
    (cfg : NocTlbConfig) : (programTlb2M kernelTlbIndex cfg).Within J K :=
  programTlb2M_within (h.silent _ trivial) (fun c hc off ho => (h.regs hr c hc off ho).2) cfg

/-- The pointer that a NOC access goes through is that of the kernel window, which the code before it has aimed. -/
theorem arcNocPtr_bind_within (h : MailScope J K) (hs : SeenWindow J) (a : UInt64) {α : Type}
    {f : IoPtr × Nat → Drv α} (hf : ∀ c, J .load c → ∀ off, (f (c.kernelTlb, off)).Within J K) :
    (arcNocPtr a >>= f).Within J K := by
  rw [arcNocPtr, bind_assoc]
  refine (programKernelTlb_within h hs.regs _).bind fun _ => ?_
  exact ⟨h.silent _ trivial, fun c hc => hf c hc _⟩

/-- A read over the NOC aims the kernel window and reads through it. -/
theorem arcNocRead32_within (h : MailScope J K) (hs : SeenWindow J) (a : UInt64) :
    (arcNocRead32 a).Within J K :=
  arcNocPtr_bind_within h hs a fun c hc off =>
    (within_perform _).mpr (h.window hs.window c hc off).1

theorem arcNocWrite32_within (h : MailScope J K) (hs : SeenWindow J) (a : UInt64) (v : UInt32) :
    (arcNocWrite32 a v).Within J K :=
  arcNocPtr_bind_within h hs a fun c hc off =>
    (within_perform _).mpr ((h.window hs.window c hc off).2 v)

/-- A read of the APB goes over the kernel window, or through the AXI aperture once that is seen mapped. -/
theorem arcApbRead32Via_within (h : MailScope J K) (hs : SeenWindow J) (route : ArcRoute)
    (hr : route = .axi → SeenAxi J) (off : UInt32) :
    (arcApbRead32Via route off).Within J K := by
  cases route with
  | none => trivial
  | nocLow => exact arcNocRead32_within h hs _
  | nocHigh => exact arcNocRead32_within h hs _
  | axi =>
    refine ⟨h.silent _ trivial, fun c hc => ?_⟩
    exact (within_perform _).mpr (h.axi (hr rfl) c hc _).1

theorem arcApbWrite32Via_within (h : MailScope J K) (hs : SeenWindow J) (route : ArcRoute)
    (hr : route = .axi → SeenAxi J) (off v : UInt32) :
    (arcApbWrite32Via route off v).Within J K := by
  cases route with
  | none => trivial
  | nocLow => exact arcNocWrite32_within h hs _ _
  | nocHigh => exact arcNocWrite32_within h hs _ _
  | axi =>
    refine ⟨h.silent _ trivial, fun c hc => ?_⟩
    exact (within_perform _).mpr ((h.axi (hr rfl) c hc _).2 _)

/-- Over the route discovered, whichever it is. -/
theorem arcApbRead32_within (h : MailScope J K) (hs : SeenWindow J) (off : UInt32) :
    (arcApbRead32 off).Within J K :=
  ⟨h.silent _ trivial, fun c hc =>
    arcApbRead32Via_within h hs c.arcRoute (fun hr => ⟨c, hc, .inr hr⟩) off⟩

theorem arcCsmRead32_within (h : MailScope J K) (hs : SeenWindow J) (a : UInt32) :
    (arcCsmRead32 a).Within J K :=
  Within.ite (fun _ => trivial) fun _ =>
    (arcNocRead32_within h hs _).bind fun _ => trivial

theorem arcCsmWrite32_within (h : MailScope J K) (hs : SeenWindow J) (a v : UInt32) :
    (arcCsmWrite32 a v).Within J K :=
  Within.ite (fun _ => trivial) fun _ =>
    (arcNocWrite32_within h hs _ _).bind fun _ => trivial

/-! ## Queue discovery -/

/-- Probing tries each route in turn, and records the first that is ready. -/
theorem probeRoutes_within (h : MailScope J K) (hs : SeenWindow J) (routes : List ArcRoute)
    (boot : BootStatus) (allDead : Bool) : (probeRoutes boot allDead routes).Within J K := by
  induction routes generalizing boot allDead with
  | nil => trivial
  | cons route rest ih =>
    refine ⟨h.silent _ trivial, fun c hc => Within.ite (fun _ => ih _ _) fun hne => ?_⟩
    -- the aperture is probed only when the load has shown it to be mapped
    have hr : route = .axi → SeenAxi J := fun hr => ⟨c, hc, .inl fun hn => hne ⟨hr, hn⟩⟩
    refine (arcApbRead32Via_within h hs route hr _).bind fun v => ?_
    exact Within.ite (fun _ => ⟨h.route route hr, fun _ _ => trivial⟩) fun _ => ih _ _

theorem pollRound_within (h : MailScope J K) (hs : SeenWindow J) (boot : BootStatus)
    {again : BootStatus → Drv (NtStatus × BootStatus)}
    (ha : ∀ boot, (again boot).Within J K) : (pollRound boot again).Within J K :=
  (probeRoutes_within h hs _ _ _).bind fun ⟨_, _, _⟩ =>
    Within.ite (fun _ => trivial) fun _ => Within.ite (fun _ => trivial) fun _ => ha _

/-- Polling probes them again, round after round. -/
theorem pollRoutes_within (h : MailScope J K) (hs : SeenWindow J) (polls : Nat)
    (boot : BootStatus) : (pollRoutes boot polls).Within J K := by
  induction polls generalizing boot with
  | zero => exact pollRound_within h hs boot fun _ => trivial
  | succ polls ih => exact pollRound_within h hs boot fun _ => ⟨h.silent _ trivial, fun _ _ => ih _⟩

/-- Locating the queue discovers a route first and reads its descriptor over it. -/
theorem arcLocateQueue_within (h : MailScope J K) (hs : SeenWindow J) :
    arcLocateQueue.Within J K := by
  refine ⟨h.silent _ trivial, fun polls _ => ?_⟩
  refine (pollRoutes_within h hs polls _).bind fun ⟨status, boot⟩ => ?_
  refine Within.ite (fun _ => trivial) fun _ => ⟨h.silent _ trivial, fun c _ => ?_⟩
  refine (arcApbRead32_within h hs _).bind fun qcbAddr => ?_
  refine (arcCsmRead32_within h hs _).bind fun r => ?_
  cases r with
  | error => trivial
  | ok base =>
    refine (arcCsmRead32_within h hs _).bind fun r => ?_
    cases r with
    | error => trivial
    | ok info => exact Within.ite (fun _ => trivial) fun _ => Within.ite (fun _ => trivial) fun _ => trivial

/-! ## The rings and one exchange -/

/-- A ring pointer is read over the kernel window, and may be dead. -/
theorem readRingPtr_within (h : MailScope J K) (hs : SeenWindow J) (a : UInt32) :
    (readRingPtr a).Within J K := by
  refine (arcCsmRead32_within h hs a).bind fun r => ?_
  cases r with
  | error => trivial
  | ok v => exact Within.ite (fun _ => trivial) fun _ => trivial

/-- Words are written one after the other. -/
theorem csmWriteWords_within (h : MailScope J K) (hs : SeenWindow J) (words : List UInt32)
    (a : UInt32) : (csmWriteWords a words).Within J K := by
  induction words generalizing a with
  | nil => trivial
  | cons v vs ih =>
    exact (arcCsmWrite32_within h hs a v).bind fun _ => Within.ite (fun _ => trivial) fun _ => ih _

theorem csmReadWords_within (h : MailScope J K) (hs : SeenWindow J) (k : Nat) (a : UInt32) :
    (csmReadWords a k).Within J K := by
  induction k generalizing a with
  | zero => trivial
  | succ k ih =>
    refine (arcCsmRead32_within h hs a).bind fun r => ?_
    cases r with
    | error => trivial
    | ok v =>
      refine (ih _).bind fun r => ?_
      cases r with
      | error => trivial
      | ok vs => trivial

/-- A push reads both pointers, writes an entry and publishes it. -/
theorem arcTryPush_within (h : MailScope J K) (hs : SeenWindow J) (msg : ArcMsg) (base n : UInt32) :
    (arcTryPush msg base n).Within J K := by
  refine (readRingPtr_within h hs _).bind fun r => ?_
  cases r with
  | error => trivial
  | ok wptr =>
    refine (readRingPtr_within h hs _).bind fun r => ?_
    cases r with
    | error => trivial
    | ok rptr =>
      refine Within.ite (fun _ => trivial) fun _ => ?_
      refine (csmWriteWords_within h hs _ _).bind fun _ => Within.ite (fun _ => trivial) fun _ => ?_
      exact arcCsmWrite32_within h hs _ _

/-- A pop reads both pointers and an entry and hands the slot back. -/
theorem arcTryPop_within (h : MailScope J K) (hs : SeenWindow J) (base n : UInt32) :
    (arcTryPop base n).Within J K := by
  refine (readRingPtr_within h hs _).bind fun r => ?_
  cases r with
  | error => trivial
  | ok rptr =>
    refine (readRingPtr_within h hs _).bind fun r => ?_
    cases r with
    | error => trivial
    | ok wptr =>
      refine Within.ite (fun _ => trivial) fun _ => ?_
      refine (csmReadWords_within h hs _ _).bind fun r => ?_
      cases r with
      | error => trivial
      | ok words =>
        exact (arcCsmWrite32_within h hs _ _).bind fun _ =>
          Within.ite (fun _ => trivial) fun _ => trivial

/-- Draining pops until the queue is empty, at most so often. -/
theorem drainResponses_within (h : MailScope J K) (hs : SeenWindow J) (base n : UInt32) (i : Nat) :
    (drainResponses base n i).Within J K := by
  induction i with
  | zero => trivial
  | succ i ih =>
    refine (arcTryPop_within h hs base n).bind fun r => ?_
    cases r with
    | error => trivial
    | ok => exact ih

theorem pollRoundResponse_within (h : MailScope J K) (hs : SeenWindow J) (base n : UInt32)
    {again : Drv (Except NtStatus ArcMsg)} (ha : again.Within J K) :
    (pollRoundResponse base n again).Within J K := by
  refine (arcTryPop_within h hs base n).bind fun r => ?_
  split
  · exact ha
  · trivial

/-- Waiting for a response polls so often. -/
theorem pollResponse_within (h : MailScope J K) (hs : SeenWindow J) (base n : UInt32)
    (polls : Nat) : (pollResponse base n polls).Within J K := by
  induction polls with
  | zero => exact pollRoundResponse_within h hs base n trivial
  | succ polls ih =>
    exact pollRoundResponse_within h hs base n ⟨h.silent _ trivial, fun _ _ => ih⟩

theorem arcDoorbell_within (h : MailScope J K) (hs : SeenWindow J) : arcDoorbell.Within J K := by
  refine ⟨h.silent _ trivial, fun c hc => ?_⟩
  have hr : c.arcRoute = .axi → SeenAxi J := fun hr => ⟨c, hc, .inr hr⟩
  exact Within.ite (fun _ => arcApbWrite32Via_within h hs _ hr _ _) fun _ =>
    arcApbWrite32Via_within h hs _ hr _ _

/-- An exchange drains, pushes, rings and waits, all in the footprint of the mailbox. -/
theorem arcExchange_within (h : MailScope J K) (hs : SeenWindow J) (msg : ArcMsg)
    (base n : UInt32) : (arcExchange msg base n).Within J K := by
  refine (drainResponses_within h hs base n _).bind fun _ => ?_
  refine (arcTryPush_within h hs msg base n).bind fun _ => Within.ite (fun _ => trivial) fun _ => ?_
  refine (arcDoorbell_within h hs).bind fun _ => ⟨h.silent _ trivial, fun polls _ => ?_⟩
  exact pollResponse_within h hs base n polls

/-- The test both locked parts of arc.c make before they touch the device. -/
theorem seenWindow_of_not_or {c : DeviceContext} (hc : J .load c)
    (h : ¬ (c.kernelTlb = none ∨ c.tlbRegs = none)) : SeenWindow J :=
  ⟨⟨c, hc, fun hn => h (.inr hn)⟩, ⟨c, hc, fun hn => h (.inl hn)⟩⟩

/-- Sending checks that the window is mapped before it goes near the device. -/
theorem arcSendLocked_within (h : MailScope J K) (msg : ArcMsg) :
    (arcSendLocked msg).Within J K := by
  refine ⟨h.silent _ trivial, fun c hc => Within.ite (fun _ => trivial) fun _ => ?_⟩
  refine Within.ite (fun _ => trivial) fun hp => ?_
  have hs := seenWindow_of_not_or hc hp
  refine (arcLocateQueue_within h hs).bind fun ⟨status, base, n, _⟩ => ?_
  exact Within.ite (fun _ => trivial) fun _ => arcExchange_within h hs msg base n

/-- So does the status query. -/
theorem arcStatusLocked_within (h : MailScope J K) : arcStatusLocked.Within J K := by
  refine ⟨h.silent _ trivial, fun c hc => Within.ite (fun _ => trivial) fun _ => ?_⟩
  refine Within.ite (fun _ => trivial) fun hp => ?_
  exact (arcLocateQueue_within h (seenWindow_of_not_or hc hp)).bind fun ⟨_, _, _, _⟩ => trivial

/-! ## The arm path -/

/-- A region is programmed through the iATU pointer, and its shadow recorded. -/
theorem iatuProgramOutbound_within (h : ArcScope J K) (hi : SeenMapped J (·.bar2Iatu))
    (region : Nat) (base limit target : UInt64) :
    (iatuProgramOutbound region base limit target).Within J K := by
  refine Within.ite (fun _ => trivial) fun _ => Within.ite (fun _ => trivial) fun _ => ?_
  refine ⟨h.silent _ trivial, fun c hc => ?_⟩
  have hw := fun off v => (h.iatu hi c hc off).2 v
  refine ⟨hw _ _, fun _ _ => ⟨hw _ _, fun _ _ => ⟨hw _ _, fun _ _ => ⟨hw _ _, fun _ _ => ?_⟩⟩⟩⟩
  refine ⟨hw _ _, fun _ _ => ⟨hw _ _, fun _ _ => ⟨hw _ _, fun _ _ => ⟨hw _ _, fun _ _ => ?_⟩⟩⟩⟩
  exact ⟨hw _ _, fun _ _ => ⟨h.store _ (fun _ => rfl) (fun _ => rfl) (fun _ => rfl) fun _ => .inl rfl,
    fun _ _ => trivial⟩⟩

/-- Detection reads NOC_ID once, and records one of the two PCIe tiles or none. -/
theorem sysmemDetectPcieTile_within (h : ArcScope J K) : sysmemDetectPcieTile.Within J K := by
  refine ⟨h.silent _ trivial, fun c hc => Within.ite (fun _ => trivial) fun hn => ?_⟩
  refine ⟨h.nocId ⟨c, hc, hn⟩ c hc _, fun nocId _ => ?_⟩
  refine ⟨h.store _ (fun _ => rfl) (fun _ => rfl) (fun _ => rfl) fun _ => .inl rfl, fun _ _ => ?_⟩
  refine Within.ite (fun _ => trivial) fun _ => Within.ite (fun _ => trivial) fun hx => ?_
  have htile : nocId &&& 0x3F = 2 ∨ nocId &&& 0x3F = 11 := by
    by_contra hn
    exact hx ⟨fun h2 => hn (.inl h2), fun h11 => hn (.inr h11)⟩
  exact ⟨h.store _ (fun _ => rfl) (fun _ => rfl) (fun _ => rfl) fun _ => .inr (.inr htile), fun _ _ => trivial⟩

theorem sysmemNocRead32_within (h : MailScope J K) (hs : SeenWindow J) (a : UInt64) :
    (sysmemNocRead32 a).Within J K := by
  refine ⟨h.silent _ trivial, fun c _ => ?_⟩
  refine (programKernelTlb_within h hs.regs _).bind fun _ =>
    ⟨h.silent _ trivial, fun c' hc' => ?_⟩
  exact (within_perform _).mpr (h.window hs.window c' hc' _).1

theorem writeProbes_within (hb : ∀ off v, K (.bufferWrite off v)) (offs : List UInt64) (i : Nat) :
    (writeProbes i offs).Within J K := by
  induction offs generalizing i with
  | nil => trivial
  | cons off offs ih => exact ⟨hb _ _, fun _ _ => ⟨hb _ _, fun _ _ => ih _⟩⟩

theorem zeroProbes_within (hb : ∀ off v, K (.bufferWrite off v)) (offs : List UInt64) :
    (zeroProbes offs).Within J K := by
  induction offs with
  | nil => trivial
  | cons off offs ih => exact ⟨hb _ _, fun _ _ => ⟨hb _ _, fun _ _ => ih⟩⟩

theorem verifyProbes_within (h : MailScope J K) (hp : ∀ f, ProbeFrame f → K (.store f))
    (hs : SeenWindow J) (offs : List UInt64) (i : Nat) : (verifyProbes i offs).Within J K := by
  induction offs generalizing i with
  | nil => trivial
  | cons off offs ih =>
    refine (sysmemNocRead32_within h hs _).bind fun v0 => ?_
    refine ⟨hp _ fun _ => rfl, fun _ _ => Within.ite (fun _ => trivial) fun _ => ?_⟩
    refine (sysmemNocRead32_within h hs _).bind fun v1 => ⟨hp _ fun _ => rfl, fun _ _ => ?_⟩
    exact Within.ite (fun _ => trivial) fun _ => ih _

/-- The loopback records its probes, writes the pattern, reads it back over the NOC and wipes it. -/
theorem sysmemLoopbackVerify_within (h : MailScope J K) (hp : ∀ f, ProbeFrame f → K (.store f))
    (hb : ∀ off v, K (.bufferWrite off v)) (hs : SeenWindow J) :
    sysmemLoopbackVerify.Within J K := by
  refine ⟨h.silent _ trivial, fun c _ => ⟨hp _ fun _ => rfl, fun _ _ => ?_⟩⟩
  refine (writeProbes_within hb _ _).bind fun _ => ⟨h.silent _ trivial, fun _ _ => ?_⟩
  refine (verifyProbes_within h hp hs _ _).bind fun _ => ?_
  exact (zeroProbes_within hb _).bind fun _ => trivial

theorem setStage_within (h : ArcScope J K) (s : SysmemStage) : (setStage s).Within J K :=
  (within_perform _).mpr (h.store _ (fun _ => rfl) (fun _ => rfl) (fun _ => rfl) fun _ => .inl rfl)

/-- The arm path up to its verdict: `armStages` before it sets the flag. -/
def armChecks : Drv NtStatus := do
  let c ← load
  if c.sysmemVa = none then
    setStage .noAlloc
    return .insufficientResources
  if c.bar2Iatu = none ∨ c.kernelTlb = none ∨ c.tlbRegs = none then
    setStage .noRegs
    return .deviceNotReady
  setStage .tileDetect
  let status ← sysmemDetectPcieTile
  if !status.ok then return status
  setStage .iatu
  let c ← load
  let status ← iatuProgramOutbound 0 0 (c.sysmemSize - 1) c.sysmemPhys
  if !status.ok then return status
  setStage .loopback
  sysmemLoopbackVerify

/-- What the arm path does with the verdict. -/
def setVerified (status : NtStatus) : Drv NtStatus := do
  if !status.ok then return status
  setStage .verified
  store fun c => { c with sysmemVerified := true }
  return .success

/-- The stages are the checks, and then the verdict. -/
theorem armStages_eq : armStages = armChecks >>= setVerified := by
  have hfail : ∀ {s : NtStatus}, (!s.ok) = true →
      (Pure.pure s : Drv NtStatus) = Pure.pure s >>= setVerified := by
    intro s hs
    rw [pure_bind, setVerified, if_pos hs]
  refine bind_eq_bind fun c => ite_eq_bind (fun _ => ?_) (ite_eq_bind (fun _ => ?_) ?_)
  · exact bind_eq_bind fun _ => hfail rfl
  · exact bind_eq_bind fun _ => hfail rfl
  · refine bind_eq_bind fun _ => bind_eq_bind fun status => ite_eq_bind hfail ?_
    refine bind_eq_bind fun _ => bind_eq_bind fun c => ?_
    refine bind_eq_bind fun status => ite_eq_bind hfail (bind_eq_bind fun _ => ?_)
    rfl

/-- The checks verify nothing: the flag is set by the verdict alone. -/
theorem armChecks_within (h : ArcScope J K) (hb : ∀ off v, K (.bufferWrite off v)) :
    armChecks.Within J K := by
  refine ⟨h.silent _ trivial, fun c hc => ?_⟩
  refine Within.ite (fun _ => (setStage_within h _).bind fun _ => trivial) fun _ => ?_
  refine Within.ite (fun _ => (setStage_within h _).bind fun _ => trivial) fun hp => ?_
  have hi : SeenMapped J (·.bar2Iatu) := ⟨c, hc, fun hn => hp (.inl hn)⟩
  have hs := seenWindow_of_not_or hc fun hn => hp (.inr hn)
  refine (setStage_within h _).bind fun _ => ?_
  refine (sysmemDetectPcieTile_within h).bind fun _ => Within.ite (fun _ => trivial) fun _ => ?_
  refine (setStage_within h _).bind fun _ => ⟨h.silent _ trivial, fun c _ => ?_⟩
  refine (iatuProgramOutbound_within h hi _ _ _ _).bind fun _ => Within.ite (fun _ => trivial) fun _ => ?_
  exact (setStage_within h _).bind fun _ => sysmemLoopbackVerify_within h.toMailScope (fun _ => h.probes) hb hs

theorem setVerified_within (hs : ∀ f, ArcFrame f → K (.store f)) (status : NtStatus) :
    (setVerified status).Within J K :=
  Within.ite (fun _ => trivial) fun _ =>
    ⟨hs _ fun _ => rfl, fun _ _ => ⟨hs _ fun _ => rfl, fun _ _ => trivial⟩⟩

/-- With the verdict: here the stores may set the flag. -/
theorem armLocked_within (h : ArcScope J K) (hb : ∀ off v, K (.bufferWrite off v))
    (hs : ∀ f, ArcFrame f → K (.store f)) :
    armLocked.Within J K := by
  refine ⟨hs _ fun _ => rfl, fun _ _ => ⟨h.silent _ trivial, fun c _ => ?_⟩⟩
  refine Within.ite (fun _ => trivial) fun _ => ?_
  have hstages : armStages.Within J K := by
    rw [armStages_eq]
    exact (armChecks_within h hb).bind fun _ => setVerified_within hs _
  exact hstages.bind fun _ => ⟨hs _ fun _ => rfl, fun _ _ => trivial⟩

theorem outSysmem_within (hp : ∀ off len v, K (.outField off len v)) (c : DeviceContext) :
    (outSysmem c).Within J K := by
  refine Within.ite (fun _ => ?_) fun _ => trivial
  exact ⟨hp _ _ _, fun _ _ => ⟨hp _ _ _, fun _ _ => ⟨hp _ _ _, fun _ _ => ⟨hp _ _ _, fun _ _ =>
    ⟨hp _ _ _, fun _ _ => ⟨hp _ _ _, fun _ _ => ⟨hp _ _ _, fun _ _ => trivial⟩⟩⟩⟩⟩⟩⟩

theorem outTiers_within (hp : ∀ off len v, K (.outField off len v)) (c : DeviceContext)
    (sizes : List UInt64) (i : Nat) : (outTiers c i sizes).Within J K := by
  induction sizes generalizing i with
  | nil => trivial
  | cons size sizes ih =>
    exact ⟨hp _ _ _, fun _ _ => ⟨hp _ _ _, fun _ _ => ih _⟩⟩

theorem outProbe_within (hp : ∀ off len v, K (.outField off len v)) (off : Nat) (p : SysmemProbe) :
    (outProbe off p).Within J K := by
  exact ⟨hp _ _ _, fun _ _ => ⟨hp _ _ _, fun _ _ => ⟨hp _ _ _, fun _ _ => ⟨hp _ _ _, fun _ _ =>
    (within_perform _).mpr (hp _ _ _)⟩⟩⟩⟩

/-- The registers of the iATU are read back one by one. -/
theorem outIatu_within (hp : ∀ off len v, K (.outField off len v)) {c : DeviceContext}
    (hr : ∀ off, K (.mmioRead c.bar2Iatu off)) (regs : List Nat) (i : Nat) :
    (outIatu c i regs).Within J K := by
  induction regs generalizing i with
  | nil => trivial
  | cons reg regs ih =>
    exact ⟨hr _, fun _ _ => ⟨hp _ _ _, fun _ _ => ih _⟩⟩

/-- The status reply is of the context and, where it is seen mapped, of the iATU. -/
theorem sysmemStatusLocked_within (hl : K .load) (hr : ReadsIatu J K)
    (hp : ∀ off len v, K (.outField off len v)) : sysmemStatusLocked.Within J K := by
  refine ⟨hl, fun c hc => ?_⟩
  refine ⟨hp _ _ _, fun _ _ => ⟨hp _ _ _, fun _ _ => ⟨hp _ _ _, fun _ _ => ⟨hp _ _ _, fun _ _ => ?_⟩⟩⟩⟩
  refine (outTiers_within hp c _ _).bind fun _ => ?_
  refine ⟨hp _ _ _, fun _ _ => ⟨hp _ _ _, fun _ _ => ⟨hp _ _ _, fun _ _ => ?_⟩⟩⟩
  refine (outProbe_within hp _ _).bind fun _ => (outProbe_within hp _ _).bind fun _ => ?_
  refine (outProbe_within hp _ _).bind fun _ => Within.ite (fun hl => ?_) fun _ => trivial
  have hi : SeenMapped J (·.bar2Iatu) := ⟨c, hc, by
    intro hn
    simp [show c.bar2Iatu = none from hn] at hl⟩
  refine (outIatu_within hp (hr hi c hc) _ _).bind fun _ => ?_
  exact (within_perform _).mpr (hp _ _ _)

end Arc

end TtWind
