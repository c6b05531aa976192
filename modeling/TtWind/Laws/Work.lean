import TtWind.Effect.Follow
import TtWind.Laws.Calls
import TtWind.Laws.Views

/-!
# What a thread does to mapping records

The records a thread has, read off the history of its call: the one it has in hand, which it builds
or is about to destroy, and the private list it destroys one by one. `Work.allows` is the discipline:
a record is inserted when it is finished, its process is released once, its block is freed after
that, and nothing new is taken while something is left. Every call of the driver keeps to it, from
nothing in hand to nothing in hand.
-/

set_option autoImplicit false

namespace TtWind

open TtWind.Effect TtWind.Effect.Prog

/-- A record in a thread's hand: the process it holds a reference on, and whether it has been on the
mapping list. -/
structure InHand where
  addr : Nat
  process : Option Process := none
  inserted : Bool := false
  deriving DecidableEq

/-- The record in hand, and the private list. -/
structure Work where
  held : Option InHand := none
  list : List UserMapping := []
  deriving DecidableEq

namespace UserMapping

/-- A record taken from a list. -/
def inHand (m : UserMapping) : InHand := ⟨m.addr, some m.process, true⟩

end UserMapping

namespace Work

/-- What the operations make of it. -/
def next : Event → Work → Work
  | ⟨.allocPool, some addr⟩, k => { k with held := some { addr } }
  | ⟨.referenceProcess p, _⟩, k => { k with held := k.held.map ({ · with process := some p }) }
  | ⟨.dereferenceProcess _, _⟩, k => { k with held := k.held.map ({ · with process := none }) }
  | ⟨.freePool _, _⟩, k => { k with held := none }
  | ⟨.locked (.insertMapping _), true⟩, k => { k with held := none }
  | ⟨.locked (.appendMapping _), _⟩, k => { k with held := none }
  | ⟨.locked (.takeMapping _ _), some m⟩, k => { k with held := some m.inHand }
  | ⟨.locked (.sweepFile _), ms⟩, k => { k with list := ms }
  | ⟨.locked .sweepAll, ms⟩, k => { k with list := ms }
  | ⟨.currentProcess, _⟩, ⟨none, m :: ms⟩ => ⟨some m.inHand, ms⟩
  | _, k => k

/-- The sections a thread may run. -/
def allowsSection (k : Work) : Section → Prop
  | .insertMapping m | .appendMapping m => k = { held := some ⟨m.addr, some m.process, false⟩ }
  | .takeMapping _ _ | .sweepFile _ | .sweepAll => k = {}
  | _ => True

/-- The operations a thread may perform. -/
def allows (k : Work) : Op → Prop
  | .allocPool => k = {}
  | .referenceProcess _ => ∃ a, k = { held := some { addr := a } }
  | .dereferenceProcess p => ∃ h, k.held = some h ∧ h.process = some p
  | .freePool a => ∃ h, k.held = some h ∧ h.addr = a ∧ h.process = none
  | .locked s => k.allowsSection s
  | .currentProcess => k.held = none ∨ k.list = []
  | .store f => TableFrame f
  | _ => True

/-- After a history. -/
def after (evs : List Event) : Work := evs.foldr next {}

end Work

/-! ## Operations that leave the records alone -/

namespace Op

/-- Operations that touch no record. -/
def sparesRecords : Op → Prop
  | .locked s => s.LeavesList
  | .store f => TableFrame f
  | .allocPool | .freePool _ | .referenceProcess _ | .dereferenceProcess _ | .currentProcess => False
  | _ => True

/-- With no private list, asking for the current process does so too. -/
def sparesHeld (o : Op) : Prop := o.sparesRecords ∨ o = .currentProcess

theorem sparesHeld_of_plain {o : Op} (h : o.plain) : o.sparesHeld := by
  cases o <;> first | exact .inl trivial | exact .inr rfl | exact (h : False).elim

/-- They are allowed with any record in hand, and leave it there. -/
theorem sparesRecords.allows {o : Op} (h : o.sparesRecords) (k : Work) : k.allows o := by
  cases o with
  | locked s =>
    show k.allowsSection s
    cases s <;> trivial
  | store f => exact h
  | allocPool => exact (h : False).elim
  | freePool a => exact (h : False).elim
  | referenceProcess p => exact (h : False).elim
  | dereferenceProcess p => exact (h : False).elim
  | currentProcess => exact (h : False).elim
  | _ => trivial

theorem sparesRecords.next {o : Op} (h : o.sparesRecords) (x : o.Ans) (k : Work) :
    k.next ⟨o, x⟩ = k := by
  cases o with
  | locked s => cases s <;> first | rfl | exact (h : False).elim
  | allocPool => exact (h : False).elim
  | freePool a => exact (h : False).elim
  | referenceProcess p => exact (h : False).elim
  | dereferenceProcess p => exact (h : False).elim
  | currentProcess => exact (h : False).elim
  | _ => rfl

end Op

/-! ## The programs -/

/-- From these records in a thread's hands on, the program keeps to the discipline, and returns as
stated. -/
abbrev Works {α : Type} (k : Work) (Q : Work → α → Prop) (p : Drv α) : Prop :=
  p.Follows (S := DriverSig) (fun k => k.allows) Work.next Q k

/-- The program returns with nothing in hand. -/
abbrev Finishes {α : Type} (k : Work) (p : Drv α) : Prop := Works k (fun k' _ => k' = {}) p

variable {α : Type} {k : Work}

/-- So does code made of them. -/
theorem works_of_spares {p : Drv α} (hp : p.Only Op.sparesRecords) (k : Work) :
    Works k (fun k' _ => k' = k) p :=
  hp.follows (fun _ ho => ho.allows k) fun _ x ho => ho.next x k

namespace Work

/-- What asking for the current process makes of it. -/
def turn : Work → Work
  | ⟨none, m :: ms⟩ => ⟨some m.inHand, ms⟩
  | k => k

theorem next_currentProcess (p : Process) (k : Work) : k.next ⟨.currentProcess, p⟩ = k.turn := by
  obtain ⟨held, list⟩ := k
  cases held <;> cases list <;> rfl

/-- With no list to turn to, the work stays. -/
theorem turn_of_nil (hk : k.list = []) : k.turn = k := by
  obtain ⟨held, list⟩ := k
  obtain rfl : list = [] := hk
  cases held <;> rfl

end Work

/-- Code off the record in hand leaves it there. -/
theorem works_of_sparesHeld {p : Drv α} (hp : p.Only Op.sparesHeld) (hk : k.list = []) :
    Works k (fun k' _ => k' = k) p := by
  apply hp.follows
  · rintro o (ho | rfl)
    · exact ho.allows k
    · exact .inr hk
  · rintro o x (ho | rfl)
    · exact ho.next x k
    · exact (k.next_currentProcess x).trans (Work.turn_of_nil hk)

theorem unmapUserView_spares (m : UserMapping) : (unmapUserView m).Only Op.sparesRecords := by
  unfold unmapUserView
  cases m.kind with
  | sectionView => exact ⟨trivial, fun _ _ => trivial⟩
  | mdl => exact (within_perform _).mpr trivial

/-- Tearing a view down turns to the next record, if there is a list. -/
theorem teardownView_works (m : UserMapping) (hk : k.held = none ∨ k.list = []) :
    Works k (fun k' _ => k' = k.turn) (teardownView m) := by
  refine ⟨hk, fun p => ?_⟩
  rw [Work.next_currentProcess]
  apply works_of_spares
  apply Within.ite (fun _ => unmapUserView_spares m) fun _ => ?_
  refine ⟨trivial, fun pending _ => Within.ite (fun _ => ?_) fun _ => trivial⟩
  refine ⟨trivial, fun saved _ => (unmapUserView_spares m).bind fun _ => ?_⟩
  exact (within_perform _).mpr trivial

/-- A record in hand is destroyed: its process is released, and its block is freed. -/
theorem destroyMapping_works {m : UserMapping} {b : Bool} {ms : List UserMapping}
    (hk : k.held = none ∨ k.list = []) (hturn : k.turn = ⟨some ⟨m.addr, some m.process, b⟩, ms⟩) :
    Works k (fun k' _ => k' = ⟨none, ms⟩) (destroyMapping m) := by
  have hfree : (freeMdlOf m.mdl).Only Op.sparesRecords := by
    cases m.mdl with
    | none => trivial
    | some mdl => exact (within_perform _).mpr trivial
  apply (teardownView_works m hk).bind
  rintro k' _ rfl
  apply (works_of_spares hfree _).bind
  rintro k' _ rfl
  rw [hturn]
  exact ⟨⟨_, rfl, rfl⟩, fun _ => ⟨⟨_, rfl, rfl, rfl⟩, fun _ => rfl⟩⟩

/-- A private list is destroyed to its end. -/
theorem destroyAll_works (ms : List UserMapping) : Finishes ⟨none, ms⟩ (destroyAll ms) := by
  induction ms with
  | nil => exact rfl
  | cons m ms ih =>
    apply (destroyMapping_works (.inl rfl) rfl).bind
    rintro k' _ rfl
    exact ih

theorem viewingScope_sparesHeld : ViewingScope Op.sparesHeld where
  silent _ ho := Op.sparesHeld_of_plain ho.plain
  attach _ := .inl trivial
  detach _ := .inl trivial

/-- A record under construction is inserted, or given back. -/
theorem createUserMapping_works (fileObject : Option FileObject) (phys length : UInt64)
    (cacheMode : UInt32) (tlbId : Int) :
    Finishes {} (createUserMapping fileObject phys length cacheMode tlbId) := by
  cases fileObject with
  | none => exact rfl
  | some fo =>
    apply (works_of_sparesHeld (mappingProcess_only viewingScope_sparesHeld) rfl).bind
    rintro k' p rfl
    refine ⟨rfl, fun addr => ?_⟩
    cases addr with
    | none => exact rfl
    | some addr =>
      refine ⟨⟨addr, rfl⟩, fun _ => ?_⟩
      have hmap : (mapIoToUser phys length (cacheMode == 1) p addr).Only Op.sparesHeld :=
        mapIoToUser_within viewingScope_sparesHeld (fun _ _ => .inl trivial) _ _ _
      apply (works_of_sparesHeld hmap rfl).bind
      rintro k' r rfl
      cases r with
      | error => exact ⟨⟨_, rfl, rfl⟩, fun _ => ⟨⟨_, rfl, rfl, rfl⟩, fun _ => rfl⟩⟩
      | ok r =>
        refine ⟨rfl, fun inserted => ?_⟩
        cases inserted with
        | true => exact rfl
        | false =>
          apply (destroyMapping_works (.inr rfl) rfl).bind
          rintro k' _ rfl
          exact rfl

/-! ## The ioctls that make and destroy mappings -/

/-- Each handler that makes or destroys mappings ends with nothing in hand. -/
theorem ioctlMapBar_works (fileObject : Option FileObject) : Finishes {} (ioctlMapBar fileObject) := by
  refine ⟨trivial, fun status => Follows.ite (fun _ => rfl) fun _ => ?_⟩
  refine ⟨trivial, fun status => Follows.ite (fun _ => rfl) fun _ => ⟨trivial, fun c => ?_⟩⟩
  refine ⟨trivial, fun _ => ⟨trivial, fun _ => ⟨trivial, fun _ => ⟨trivial, fun _ => ?_⟩⟩⟩⟩
  refine Follows.ite (fun _ => rfl) fun _ => ?_
  apply (createUserMapping_works fileObject _ _ _ _).bind
  rintro k' r rfl
  cases r with
  | error => exact rfl
  | ok userVa =>
    exact ⟨trivial, fun _ => ⟨trivial, fun _ => ⟨trivial, fun _ => ⟨trivial, fun _ => rfl⟩⟩⟩⟩

theorem ioctlUnmapBar_works (fileObject : Option FileObject) : Finishes {} (ioctlUnmapBar fileObject) := by
  cases fileObject with
  | none => exact rfl
  | some fo =>
    refine ⟨trivial, fun status => Follows.ite (fun _ => rfl) fun _ => ⟨trivial, fun va => ?_⟩⟩
    refine ⟨rfl, fun found => ?_⟩
    cases found with
    | none => exact rfl
    | some m =>
      apply (destroyMapping_works (.inr rfl) rfl).bind
      rintro k' _ rfl
      exact rfl

theorem ioctlMapTlb_works (fileObject : Option FileObject) : Finishes {} (ioctlMapTlb fileObject) := by
  cases fileObject with
  | none => exact rfl
  | some fo =>
    refine ⟨trivial, fun status => Follows.ite (fun _ => rfl) fun _ => ?_⟩
    refine ⟨trivial, fun status => Follows.ite (fun _ => rfl) fun _ => ⟨trivial, fun mode => ?_⟩⟩
    refine Follows.ite (fun _ => rfl) fun _ => ⟨trivial, fun id => ⟨trivial, fun owner => ?_⟩⟩
    refine Follows.ite (fun _ => rfl) fun _ => ⟨trivial, fun c => Follows.ite (fun _ => rfl) fun _ => ?_⟩
    apply (createUserMapping_works (some fo) _ _ _ _).bind
    rintro k' r rfl
    cases r with
    | error => exact rfl
    | ok userVa => exact ⟨trivial, fun _ => ⟨trivial, fun _ => rfl⟩⟩

theorem ioctlMapSysmem_works (fileObject : Option FileObject) :
    Finishes {} (ioctlMapSysmem fileObject) := by
  cases fileObject with
  | none => exact rfl
  | some fo =>
    refine ⟨trivial, fun status => Follows.ite (fun _ => rfl) fun _ => ?_⟩
    refine ⟨trivial, fun status => Follows.ite (fun _ => rfl) fun _ => ?_⟩
    refine ⟨trivial, fun _ => ⟨trivial, fun _ => Follows.ite (fun _ => rfl) fun _ => ?_⟩⟩
    refine ⟨trivial, fun _ => ⟨trivial, fun c => ⟨trivial, fun _ => Follows.ite (fun _ => rfl) fun _ => ?_⟩⟩⟩
    refine ⟨trivial, fun c => Follows.ite (fun _ => rfl) fun _ => ?_⟩
    apply (works_of_sparesHeld (mappingProcess_only viewingScope_sparesHeld) rfl).bind
    rintro k' p rfl
    refine ⟨rfl, fun addr => ?_⟩
    cases addr with
    | none => exact rfl
    | some addr =>
      refine ⟨⟨addr, rfl⟩, fun _ => ⟨trivial, fun c => ?_⟩⟩
      have hmap := fun phys length => mapSysmemToUser_only viewingScope_sparesHeld
        (fun _ _ _ => .inl trivial) phys length p addr
      apply (works_of_sparesHeld (hmap _ _) rfl).bind
      rintro k' r rfl
      cases r with
      | error => exact ⟨⟨_, rfl, rfl⟩, fun _ => ⟨⟨_, rfl, rfl, rfl⟩, fun _ => rfl⟩⟩
      | ok r =>
        exact ⟨rfl, fun _ => ⟨trivial, fun _ => ⟨trivial, fun _ => ⟨trivial, fun _ => ⟨trivial, fun _ =>
          rfl⟩⟩⟩⟩⟩

/-! ## Every call -/

/-- The other programs touch no record. -/
theorem deviceFoot_sparesHeld {l : Lock} {o : Op} (h : deviceFoot l o) : o.sparesHeld := by
  cases o with
  | store f => exact .inl (ArcFrame.table h)
  | _ => first | exact .inl trivial | exact .inr rfl | exact (h : False).elim

theorem resetFoot_sparesHeld {o : Op} (h : resetFoot Section.LeavesList o) : o.sparesHeld := by
  cases o with
  | store f => exact .inl (ResetFrame.table h)
  | locked s => exact .inl h
  | _ => first | exact .inl trivial | exact .inr rfl | exact (h : False).elim

theorem prepareFoot_sparesHeld {o : Op} (h : prepareFoot o) : o.sparesHeld := by
  cases o with
  | store f => exact .inl (HardwareFrame.table h)
  | _ => first | exact .inl trivial | exact .inr rfl | exact (h : False).elim

theorem windowScope_sparesHeld (fileObject : Option FileObject) :
    WindowScope fileObject Op.sparesHeld where
  plain _ := Op.sparesHeld_of_plain
  allocate _ _ := .inl trivial
  free _ _ _ := .inl trivial

theorem hardwareScope_sparesHeld : HardwareScope Op.sparesHeld where
  silent _ ho := Op.sparesHeld_of_plain ho.plain
  store _ hf _ _ _ := .inl hf.table
  queryInterface := .inl trivial
  dereferenceInterface := .inl trivial
  allocContiguous _ _ _ := .inl trivial
  bufferZero _ := .inl trivial

theorem noOutput_works {p : Drv NtStatus} (hp : Finishes {} p) : Finishes {} (noOutput p) :=
  hp.bind fun _ _ hk => hk

/-- Every handler ends with nothing in hand. -/
theorem ioctlHandler_works (fileObject : Option FileObject) (code : Ioctl) :
    Finishes {} (ioctlHandler fileObject code) := by
  have hspares : ∀ {α : Type} {p : Drv α}, p.Only Op.sparesHeld → Finishes {} p :=
    fun hp => works_of_sparesHeld hp rfl
  have harc : ∀ {α : Type} {p : Drv α} {l : Lock}, p.Only (deviceFoot l) → Finishes {} p :=
    fun hp => hspares (hp.mono fun _ => deviceFoot_sparesHeld)
  have hreset : ∀ {α : Type} {p : Drv α}, p.Only (resetFoot Section.LeavesList) → Finishes {} p :=
    fun hp => hspares (hp.mono fun _ => resetFoot_sparesHeld)
  cases code with
  | getDeviceInfo => exact hspares (getDeviceInfo_only fun _ => Op.sparesHeld_of_plain)
  | mapBar => exact ioctlMapBar_works _
  | unmapBar => exact noOutput_works (ioctlUnmapBar_works _)
  | allocateTlb => exact hspares (ioctlAllocateTlb_only (windowScope_sparesHeld _))
  | freeTlb => exact noOutput_works (hspares (ioctlFreeTlb_only (windowScope_sparesHeld _)))
  | configureTlb => exact noOutput_works (harc (ioctlConfigureTlb_only _))
  | mapTlb => exact ioctlMapTlb_works _
  | smcMsg => exact harc ioctlSmcMsg_only
  | resetDevice => exact noOutput_works (hreset (resetDevice_only trivial trivial _))
  | arcStatus => exact harc ioctlArcStatus_only
  | postReset => exact noOutput_works (hreset ioctlPostReset_only)
  | querySysmem => exact harc (ioctlQuerySysmem_only (fun _ => deviceFoot_of_plain) rfl rfl)
  | mapSysmem => exact ioctlMapSysmem_works _
  | sysmemStatus => exact harc ioctlSysmemStatus_only
  | other => exact rfl

/-- So does the dispatcher, whatever it refuses. -/
theorem evtIoDeviceControl_works (fileObject : Option FileObject) (code : Ioctl) :
    Finishes {} (evtIoDeviceControl fileObject code) := by
  have hstale : (isStale fileObject).Only Op.sparesHeld :=
    isStale_only (.inl trivial) (fun _ => .inl trivial) fileObject
  apply (works_of_sparesHeld hstale rfl).bind
  rintro k' stale rfl
  refine Follows.ite (fun _ => ⟨trivial, fun _ => rfl⟩) fun _ => ⟨trivial, fun c => ?_⟩
  refine Follows.ite (fun _ => ⟨trivial, fun _ => rfl⟩) fun _ => ?_
  apply (ioctlHandler_works fileObject code).bind
  rintro k' r rfl
  exact ⟨trivial, fun _ => rfl⟩

/-- ReleaseHardware destroys all it took off the list. -/
theorem evtDeviceReleaseHardware_works : Finishes {} evtDeviceReleaseHardware := by
  have hrevoke : Finishes {} revokeAllMappings := ⟨rfl, fun ms => destroyAll_works ms⟩
  apply hrevoke.bind
  rintro k' _ rfl
  have hrelease : releaseResources.Only Op.sparesHeld :=
    releaseResources_only hardwareScope_sparesHeld (fun _ hf _ _ => .inl hf.table) (fun _ => .inl trivial)
      (fun _ => .inl trivial) (fun _ _ => .inl trivial) fun _ _ => .inl trivial
  exact works_of_sparesHeld hrelease rfl

/-- Every call keeps to the discipline, from nothing in hand to nothing in hand. -/
theorem World.Call.works {w : World} {p : Drv Unit} {t : Tid} (h : w.Call p t) : Finishes {} p := by
  cases t with
  | ioctl =>
    obtain ⟨code, rfl⟩ := h
    exact evtIoDeviceControl_works _ code
  | power =>
    obtain ⟨cb, rfl⟩ := h
    exact works_of_sparesHeld ((power_only cb).mono fun _ ho =>
      deviceFoot_sparesHeld (arcFoot_of_powerFoot ho)) rfl
  | hardware =>
    rcases h with ⟨resources, rfl⟩ | rfl
    · have hprepare := (evtDevicePrepareHardware_only resources).mono fun _ => prepareFoot_sparesHeld
      exact (works_of_sparesHeld hprepare rfl).bind fun _ _ hk => hk
    · exact evtDeviceReleaseHardware_works
  | create fo =>
    obtain rfl : p = evtDeviceFileCreate fo := h
    exact ⟨trivial, fun _ => ⟨trivial, fun _ => ⟨trivial, fun _ => rfl⟩⟩⟩
  | cleanup fo =>
    obtain rfl : p = evtFileCleanup fo := h
    exact ⟨rfl, fun ms => destroyAll_works ms⟩

namespace World

/-- The records a thread has. -/
def work (w : World) (t : Tid) : Work := Work.after (w.hist t)

end World

/-- What a live thread is about to do, its records allow, and it ends with none. -/
theorem reach_works {allow : Tid → Op → World → Prop} {c : DriverConfig} (h : Reach driver allow c)
    {t : Tid} {q : Drv Unit} (hq : c.pool t = some q) : Finishes (c.world.work t) q := by
  obtain ⟨p, hcall, hleads⟩ := reach_inCall h hq
  exact hleads.follows hcall.works

end TtWind
