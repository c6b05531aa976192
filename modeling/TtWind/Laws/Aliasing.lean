import TtWind.Driver.Schedule
import TtWind.Laws.MapSysmem
import TtWind.Laws.Programs

/-!
# Input and output in one buffer

With METHOD_BUFFERED the two pointers a handler retrieves are the same buffer.
`Overlaid n` relates a run on one buffer to a run on two: the first `n` bytes of
the one buffer are output already, the rest is still input. A program that reads
its input only beyond the output it has written keeps the two runs in step; that
is `Overlay`, read off the program.
-/

set_option autoImplicit false

namespace TtWind

open TtWind.Effect TtWind.Effect.Prog

/-! ## The discipline -/

namespace Op

/-- Operations on the request's buffers. -/
def buffered : Op → Prop
  | inField _ _ | outZero _ | outField _ _ _ => True
  | _ => False

/-- With `n` bytes of output written: input is read beyond them, output stored within. -/
def clears (n : Nat) : Op → Prop
  | inField off _ => n ≤ off
  | outField off len _ => off + len ≤ n
  | _ => True

/-- The bytes of output written after the operation. -/
def written (n : Nat) : Op → Nat
  | outZero len => max n len
  | _ => n

theorem clears_of_not_buffered {o : Op} (h : ¬ o.buffered) (n : Nat) : o.clears n := by
  cases o <;> first | trivial | exact absurd trivial h

theorem written_of_not_buffered {o : Op} (h : ¬ o.buffered) (n : Nat) : o.written n = n := by
  cases o <;> first | rfl | exact absurd trivial h

end Op

/-- The program reads its input only beyond the output written, of which there are `n`
bytes at its start; at its end their number and its value satisfy `Q`. -/
def Overlay {α : Type} (Q : Nat → α → Prop) : Nat → Drv α → Prop
  | n, .pure a => Q n a
  | n, .vis o k => o.clears n ∧ ∀ x, Overlay Q (o.written n) (k x)

namespace Overlay

variable {α β : Type} {Q : Nat → α → Prop} {Q' : Nat → β → Prop} {n : Nat}

theorem bind {p : Drv α} {f : α → Drv β} (hp : Overlay Q n p)
    (hf : ∀ m a, Q m a → Overlay Q' m (f a)) : Overlay Q' n (p >>= f) := by
  induction p generalizing n with
  | pure a => exact hf n a hp
  | vis o k ih => exact ⟨hp.1, fun x => ih x (hp.2 x)⟩

theorem ite {c : Prop} [Decidable c] {p q : Drv α} (hp : Overlay Q n p) (hq : Overlay Q n q) :
    Overlay Q n (if c then p else q) := by
  split
  · exact hp
  · exact hq

/-- Code that leaves the request's buffers alone. -/
theorem of_only {p : Drv α} (hp : p.Only fun o => ¬ Op.buffered o) :
    Overlay (fun m _ => m = n) n p := by
  induction p with
  | pure a => rfl
  | vis o k ih =>
    refine ⟨Op.clears_of_not_buffered hp.1 n, fun x => ?_⟩
    rw [Op.written_of_not_buffered hp.1 n]
    exact ih x (hp.2 x trivial)

end Overlay

/-! ## The two runs -/

/-- World `u` has one buffer, world `v` two; `n` bytes of output are written. -/
structure World.Overlaid (n : Nat) (u v : World) : Prop where
  same : u = { v with req := u.req }
  request : u.req = { v.req with aliased := true, inBuf := u.req.inBuf, outBuf := u.req.outBuf }
  separate : v.req.aliased = false
  written : ∀ i, i < n → u.req.inBuf i = v.req.outBuf i
  unread : ∀ i, n ≤ i → u.req.inBuf i = v.req.inBuf i

theorem map_ite {α β : Type} {c : Prop} [Decidable c] {a b : Option α} {f : α → β} :
    (if c then a else b).map f = if c then a.map f else b.map f := by
  split <;> rfl

theorem addView_withReq {t : Tid} {addr : Nat} {span : Span} {e : Choice} {w : World} {r : Request} :
    World.addView { w with req := r } t addr span e =
      (w.addView t addr span e).map fun p => (p.1, { p.2 with req := r }) := by
  cases e with
  | address a => exact Eq.symm map_ite
  | _ => rfl

/-- An operation that leaves the buffers alone does not depend on them. -/
theorem step_withReq {t : Tid} {o : Op} (ho : ¬ o.buffered) (e : Choice) {w : World} {r : Request}
    (hproc : r.requestor = w.req.requestor) (hin : r.inLen = w.req.inLen)
    (hout : r.outLen = w.req.outLen) :
    World.step t o e { w with req := r } =
      (World.step t o e w).map fun p => (p.1, { p.2 with req := r }) := by
  cases o with
  | inField | outZero | outField => exact absurd trivial ho
  | acquire l =>
    cases l <;> exact Eq.symm map_ite
  | release l =>
    cases l <;> exact Eq.symm map_ite
  | mapLockedPages m wc addr => exact addView_withReq
  | mapView offset size addr =>
    cases e with
    | address a => exact addView_withReq (e := .address a) (w := w) (r := r)
    | fail s => exact Eq.symm map_ite
    | _ => rfl
  | _ =>
    cases e <;> first
      | rfl
      | exact Eq.symm map_ite
      | (simp only [World.step, hproc, hin, hout]; rfl)

/-- An operation that leaves the buffers alone keeps the two runs in step. -/
theorem World.Overlaid.step_other {n : Nat} {u v : World} (h : Overlaid n u v) {t : Tid} {o : Op}
    (ho : ¬ o.buffered) (e : Choice) :
    (v.step t o e = none → u.step t o e = none) ∧
      ∀ x v', v.step t o e = some (x, v') → ∃ u', u.step t o e = some (x, u') ∧ Overlaid n u' v' := by
  have hproc : u.req.requestor = v.req.requestor := by rw [h.request]
  have hin : u.req.inLen = v.req.inLen := by rw [h.request]
  have hout : u.req.outLen = v.req.outLen := by rw [h.request]
  have hstep := step_withReq (t := t) ho e hproc hin hout
  rw [← h.same] at hstep
  constructor
  · intro hnone
    rw [hstep, hnone]
    rfl
  · intro x v' hsome
    have hreq : v'.req = v.req := (World.step_frame hsome).req fun hw => ho (by
      cases o <;> first | exact hw | exact (hw : False).elim)
    refine ⟨{ v' with req := u.req }, by rw [hstep, hsome]; rfl, rfl, ?_, ?_, ?_, ?_⟩
    · rw [hreq]
      exact h.request
    · rw [hreq]
      exact h.separate
    · rw [hreq]
      exact h.written
    · rw [hreq]
      exact h.unread

/-- A store to the output, as seen on one buffer and on two. -/
theorem World.Overlaid.write {n m : Nat} {u v : World} (h : Overlaid n u v)
    {f : (Nat → UInt8) → Nat → UInt8}
    (hwritten : ∀ b b' : Nat → UInt8, (∀ i, i < n → b i = b' i) → ∀ i, i < m → f b i = f b' i)
    (hunread : ∀ (b : Nat → UInt8) i, m ≤ i → f b i = b i) (hle : n ≤ m) :
    Overlaid m { u with req := u.req.write f } { v with req := v.req.write f } := by
  have halias : u.req.aliased = true := by rw [h.request]
  have hu : u.req.write f = { u.req with inBuf := f u.req.inBuf } := by
    rw [Request.write, if_pos halias]
  have hv : v.req.write f = { v.req with outBuf := f v.req.outBuf } := by
    rw [Request.write, if_neg (by simp [h.separate])]
  refine ⟨?_, ?_, ?_, ?_, ?_⟩
  · exact congrArg (fun w : World => { w with req := u.req.write f }) h.same
  · rw [hu, hv]
    exact congrArg (fun r : Request => { r with inBuf := f u.req.inBuf }) h.request
  · rw [hv]
    exact h.separate
  · rw [hu, hv]
    exact hwritten _ _ h.written
  · rw [hu, hv]
    intro i hi
    exact (hunread _ i hi).trans (h.unread i (Nat.le_trans hle hi))

/-- An operation within the discipline keeps the two runs in step. -/
theorem World.Overlaid.exec {n : Nat} {u v : World} (h : Overlaid n u v) {t : Tid} {o : Op}
    (ho : o.clears n) (e : Choice) :
    (v.exec t o e = none → u.exec t o e = none) ∧
      ∀ x v', v.exec t o e = some (x, v') →
        ∃ u', u.exec t o e = some (x, u') ∧ Overlaid (o.written n) u' v' := by
  have hstep : (v.step t o e = none → u.step t o e = none) ∧
      ∀ x v', v.step t o e = some (x, v') →
        ∃ u', u.step t o e = some (x, u') ∧ Overlaid (o.written n) u' v' := by
    by_cases hb : o.buffered
    · cases o with
      | inField off len =>
        refine ⟨fun hnone => (by cases hnone), fun x v' hsome => ⟨u, ?_, ?_⟩⟩
        · have hsame : leNat u.req.inBuf off len = leNat v.req.inBuf off len :=
            leNat_congr fun i hlo _ => h.unread i (Nat.le_trans ho hlo)
          obtain ⟨rfl, rfl⟩ := Prod.mk.inj (Option.some.inj hsome)
          rw [← hsame]
          rfl
        · obtain ⟨-, rfl⟩ := Prod.mk.inj (Option.some.inj hsome)
          exact h
      | outZero len =>
        refine ⟨fun hnone => (by cases hnone), fun x v' hsome => ⟨_, rfl, ?_⟩⟩
        obtain ⟨-, rfl⟩ := Prod.mk.inj (Option.some.inj hsome)
        refine h.write (m := max n len) (fun b b' hbb i hi => ?_) (fun b i hi => ?_)
          (Nat.le_max_left n len)
        · by_cases hlen : i < len
          · simp only [if_pos hlen]
          · simp only [if_neg hlen]
            exact hbb i (by omega)
        · exact if_neg (by omega)
      | outField off len x =>
        have hwithin : off + len ≤ n := ho
        refine ⟨fun hnone => (by cases hnone), fun _ v' hsome => ⟨_, rfl, ?_⟩⟩
        obtain ⟨-, rfl⟩ := Prod.mk.inj (Option.some.inj hsome)
        refine h.write (m := n) (fun b b' hbb i hi => ?_) (fun b i hi => ?_) (Nat.le_refl n)
        · simp only [leStore, hbb i hi]
        · exact leStore_of_not_mem (by omega)
      | _ => exact hb.elim
    · rw [Op.written_of_not_buffered hb]
      exact h.step_other hb e
  constructor
  · intro hnone
    rw [World.exec, Option.map_eq_none_iff] at hnone ⊢
    exact hstep.1 hnone
  · intro x v' hsome
    obtain ⟨v₁, hv, rfl⟩ := World.exec_step hsome
    obtain ⟨u₁, hu, hover⟩ := hstep.2 x v₁ hv
    refine ⟨u₁.record t ⟨o, x⟩, by rw [World.exec, hu]; rfl, ?_, hover.request, hover.separate,
      hover.written, hover.unread⟩
    exact congrArg (fun w : World => w.record t ⟨o, x⟩) hover.same

/-- A program within the discipline answers the same in both runs. -/
theorem Overlay.replay {α : Type} {Q : Nat → α → Prop} {n : Nat} {p : Drv α} (hp : Overlay Q n p)
    {t : Tid} {u v : World} (h : World.Overlaid n u v) (es : List Choice) :
    (driverMachine.replay t p es v = none → driverMachine.replay t p es u = none) ∧
      ∀ a v', driverMachine.replay t p es v = some (a, v') →
        ∃ u' m, driverMachine.replay t p es u = some (a, u') ∧ World.Overlaid m u' v' ∧ Q m a := by
  induction p generalizing n u v es with
  | pure a =>
    cases es with
    | nil =>
      refine ⟨fun hnone => (by cases hnone), fun b v' hsome => ?_⟩
      obtain ⟨rfl, rfl⟩ := Prod.mk.inj (Option.some.inj hsome)
      exact ⟨u, n, rfl, h, hp⟩
    | cons e es => exact ⟨fun _ => rfl, fun b v' hsome => (by cases hsome)⟩
  | vis o k ih =>
    cases es with
    | nil => exact ⟨fun _ => rfl, fun b v' hsome => (by cases hsome)⟩
    | cons e es =>
      obtain ⟨hnone, hsome⟩ := h.exec (t := t) hp.1 e
      cases hv : v.exec t o e with
      | none =>
        have hu := hnone hv
        simp only [Machine.replay, driverMachine_exec, hv, hu]
        simp
      | some r =>
        obtain ⟨x, v₁⟩ := r
        obtain ⟨u₁, hu, hover⟩ := hsome x v₁ hv
        simp only [Machine.replay, driverMachine_exec, hv, hu]
        exact ih x (hp.2 x) hover es

/-! ## The handlers -/

theorem mappingScope_notBuffered (fileObject : Option FileObject) :
    MappingScope fileObject fun o => ¬ Op.buffered o where
  currentProcess := id
  exitPending _ := id
  attach _ := id
  detach _ := id
  unmapView _ := id
  unmapLockedPages _ _ := id
  freeMdl _ := id
  dereferenceProcess _ := id
  freePool _ := id
  silent o ho := by cases o <;> first | exact id | exact ho.elim
  allocPool := id
  referenceProcess _ := id
  mapLockedPages _ _ _ := id
  mapView _ _ _ := id
  insertMapping _ _ := id

theorem arcScope_notBuffered : ArcScope (fun _ _ => True) fun o => ¬ Op.buffered o :=
  arcScope_of (fun o ho => by cases o <;> first | exact id | exact ho.elim)
    (fun _ _ => id) fun _ _ => ⟨id, fun _ => id⟩

/-- The reply lies within the output written. -/
def InReply (n : Nat) (r : NtStatus × Nat) : Prop := r.2 ≤ n

theorem ioctlMapBar_overlay (fileObject : Option FileObject) :
    Overlay InReply 0 (ioctlMapBar fileObject) := by
  have hrefused : ∀ s, Overlay InReply 0 (Pure.pure (s, 0)) := fun s => Nat.le_refl 0
  refine ⟨trivial, fun _ => Overlay.ite (hrefused _) ⟨trivial, fun _ => ?_⟩⟩
  refine Overlay.ite (hrefused _) ⟨trivial, fun c => ⟨Nat.zero_le _, fun bar => ?_⟩⟩
  refine ⟨Nat.zero_le _, fun mode => ⟨Nat.zero_le _, fun off => ⟨Nat.zero_le _, fun len => ?_⟩⟩⟩
  refine Overlay.ite (hrefused _) ?_
  have hcreate := createUserMapping_only (mappingScope_notBuffered fileObject)
    ((c.bars (UInt32.ofNat bar).toNat).phys + UInt64.ofNat off) (UInt64.ofNat len)
    (UInt32.ofNat mode) (.inl rfl)
  refine (Overlay.of_only hcreate).bind fun m r hm => ?_
  subst hm
  cases r with
  | error s => exact hrefused s
  | ok va =>
    -- the late read of Length lies beyond the sixteen bytes of output
    have hva : 0 + 8 ≤ 16 := by decide
    have hlength : 8 + 8 ≤ 16 := by decide
    exact ⟨trivial, fun _ => ⟨hva, fun _ => ⟨Nat.le_refl 16, fun _ => ⟨hlength, fun _ =>
      Nat.le_refl 16⟩⟩⟩⟩

theorem ioctlAllocateTlb_overlay (fileObject : Option FileObject) :
    Overlay InReply 0 (ioctlAllocateTlb fileObject) := by
  have hrefused : ∀ s, Overlay InReply 0 (Pure.pure (s, 0)) := fun s => Nat.le_refl 0
  cases fileObject with
  | none => exact hrefused _
  | some fo =>
    refine ⟨trivial, fun _ => Overlay.ite (hrefused _) ⟨trivial, fun _ => ?_⟩⟩
    refine Overlay.ite (hrefused _) ⟨Nat.zero_le _, fun size => Overlay.ite (hrefused _) ?_⟩
    refine ⟨trivial, fun id => ?_⟩
    cases id with
    | none => exact hrefused _
    | some id =>
      have hid : 0 + 4 ≤ 8 := by decide
      exact ⟨trivial, fun _ => ⟨hid, fun _ => Nat.le_refl 8⟩⟩

theorem ioctlMapTlb_overlay (fileObject : Option FileObject) :
    Overlay InReply 0 (ioctlMapTlb fileObject) := by
  have hrefused : ∀ s, Overlay InReply 0 (Pure.pure (s, 0)) := fun s => Nat.le_refl 0
  cases fileObject with
  | none => exact hrefused _
  | some fo =>
    refine ⟨trivial, fun _ => Overlay.ite (hrefused _) ⟨trivial, fun _ => ?_⟩⟩
    refine Overlay.ite (hrefused _) ⟨Nat.zero_le _, fun mode => Overlay.ite (hrefused _) ?_⟩
    refine ⟨Nat.zero_le _, fun id => ⟨trivial, fun _ => Overlay.ite (hrefused _) ?_⟩⟩
    refine ⟨trivial, fun c => Overlay.ite (hrefused _) ?_⟩
    have hcreate := createUserMapping_only (mappingScope_notBuffered (some fo))
      ((c.bars 0).phys + (UInt32.ofNat id).toUInt64 * tlb2mSize) tlb2mSize (UInt32.ofNat mode)
      (.inr (Int.natCast_nonneg (UInt32.ofNat id).toNat))
    refine (Overlay.of_only hcreate).bind fun m r hm => ?_
    subst hm
    cases r with
    | error s => exact hrefused s
    | ok va => exact ⟨trivial, fun _ => ⟨Nat.le_refl 8, fun _ => Nat.le_refl 8⟩⟩

theorem inWords_overlay (k off : Nat) : Overlay (fun m _ => m = 0) 0 (inWords off k) := by
  induction k generalizing off with
  | zero => rfl
  | succ k ih =>
    refine ⟨Nat.zero_le _, fun v => (ih (off + 4)).bind fun m words hm => ?_⟩
    exact hm

theorem outWords_overlay {n : Nat} (words : List UInt32) (off : Nat)
    (h : off + 4 * words.length ≤ n) : Overlay (fun m _ => m = n) n (outWords off words) := by
  induction words generalizing off with
  | nil => rfl
  | cons v vs ih =>
    rw [List.length_cons] at h
    exact ⟨by show off + 4 ≤ n; omega, fun _ => ih (off + 4) (by omega)⟩

theorem arcMsgSendSync_notBuffered (msg : ArcMsg) :
    (arcMsgSendSync msg).Only fun o => ¬ Op.buffered o :=
  ⟨id, fun _ _ => (arcSendLocked_within arcScope_notBuffered.toMailScope msg).bind fun _ =>
    ⟨id, fun _ _ => trivial⟩⟩

theorem ioctlSmcMsg_overlay : Overlay InReply 0 ioctlSmcMsg := by
  have hrefused : ∀ s, Overlay InReply 0 (Pure.pure (s, 0)) := fun s => Nat.le_refl 0
  refine ⟨trivial, fun _ => Overlay.ite (hrefused _) ⟨trivial, fun _ => ?_⟩⟩
  refine Overlay.ite (hrefused _) ((inWords_overlay 8 0).bind fun m words hm => ?_)
  subst hm
  refine (Overlay.of_only (arcMsgSendSync_notBuffered _)).bind fun m r hm => ?_
  subst hm
  cases r with
  | error s => exact hrefused s
  | ok msg =>
    refine ⟨trivial, fun _ => (outWords_overlay (n := 32) msg.words 0 ?_).bind fun m _ hm => ?_⟩
    · simp [ArcMsg.words]
    · exact Nat.le_of_eq hm.symm

/-! ## MAP_SYSMEM -/

/-- MAP_SYSMEM up to its reply: the address of the view, or why there is none. -/
def mapSysmemGrant (fileObject : Option FileObject) : Drv (Except NtStatus UInt64) := do
  let some fo := fileObject | return .error .invalidHandle
  let status ← retrieveInputBuffer 16
  if !status.ok then return .error status
  let status ← retrieveOutputBuffer 16
  if !status.ok then return .error status
  let offset ← inU64 0
  let length ← inU64 8
  if !mapSysmemAligned offset length then return .error .invalidParameter
  acquire .arc
  let available := (← load).sysmemVerified
  release .arc
  if !available then return .error .deviceNotReady
  let c ← load
  if !mapSysmemInBounds c offset length then return .error .invalidParameter
  let process ← mappingProcess
  let some addr ← op .allocPool | return .error .insufficientResources
  op (.referenceProcess process)
  let c ← load
  match ← mapSysmemToUser (c.sysmemPhys + offset) length process addr with
  | .error status => do
    op (.dereferenceProcess process)
    op (.freePool addr)
    return .error status
  | .ok (sectionBase, userVa) => do
    locked (.appendMapping {
      addr, fileObject := fo, process, kind := .sectionView, mdl := none, sectionBase, userVa
      length, tlbId := -1 })
    return .ok userVa

/-- The reply of MAP_SYSMEM. -/
def mapSysmemReply : Except NtStatus UInt64 → Drv (NtStatus × Nat)
  | .error status => return (status, 0)
  | .ok userVa => do
    outZero 16
    outU64 0 userVa
    outU64 8 (← inU64 8)
    return (.success, 16)

theorem ioctlMapSysmem_eq (fileObject : Option FileObject) :
    ioctlMapSysmem fileObject = mapSysmemGrant fileObject >>= mapSysmemReply := by
  cases fileObject with
  | none => rfl
  | some fo =>
    refine bind_eq_bind fun _ => ite_eq_bind (fun _ => rfl) (bind_eq_bind fun _ => ite_eq_bind (fun _ => rfl) ?_)
    refine bind_eq_bind fun _ => bind_eq_bind fun _ => ite_eq_bind (fun _ => rfl) (bind_eq_bind fun _ => ?_)
    refine bind_eq_bind fun _ => bind_eq_bind fun _ => ite_eq_bind (fun _ => rfl) (bind_eq_bind fun _ => ?_)
    refine ite_eq_bind (fun _ => rfl) (bind_eq_bind fun _ => bind_eq_bind fun addr => ?_)
    cases addr with
    | none => rfl
    | some addr =>
      refine bind_eq_bind fun _ => bind_eq_bind fun _ => bind_eq_bind fun r => ?_
      cases r with
      | error s => rfl
      | ok r => rfl

theorem mapSysmemGrant_overlay (fileObject : Option FileObject) :
    Overlay (fun m _ => m = 0) 0 (mapSysmemGrant fileObject) := by
  have hK := mappingScope_notBuffered fileObject
  cases fileObject with
  | none => rfl
  | some fo =>
    refine ⟨trivial, fun _ => Overlay.ite rfl ⟨trivial, fun _ => Overlay.ite rfl ?_⟩⟩
    refine ⟨Nat.zero_le _, fun _ => ⟨Nat.zero_le _, fun _ => Overlay.ite rfl ⟨trivial, fun _ => ?_⟩⟩⟩
    refine ⟨trivial, fun c => ⟨trivial, fun _ => Overlay.ite rfl ⟨trivial, fun c => ?_⟩⟩⟩
    refine Overlay.ite rfl ((Overlay.of_only (mappingProcess_only hK.viewing)).bind fun m p hm => ?_)
    subst hm
    refine ⟨trivial, fun addr => ?_⟩
    cases addr with
    | none => rfl
    | some addr =>
      refine ⟨trivial, fun _ => ⟨trivial, fun c => ?_⟩⟩
      refine (Overlay.of_only (mapSysmemToUser_only hK.viewing hK.mapView _ _ _ _)).bind fun m r hm => ?_
      subst hm
      cases r with
      | error s => exact ⟨trivial, fun _ => ⟨trivial, fun _ => rfl⟩⟩
      | ok r => exact ⟨trivial, fun _ => rfl⟩

theorem replay_mappingProcess {t : Tid} {es : List Choice} {w w' : World} {p : Process}
    (h : driverMachine.replay t mappingProcess es w = some (p, w')) :
    p = w.req.requestor.getD (w.curProc t) ∧
      es.length = (if w.req.requestor = none then 2 else 1) ∧ w.Quiet w' ∧
      w'.curProc = w.curProc := by
  unfold mappingProcess at h
  rw [Replay.det_bind (x := w.req.requestor) (w := w) fun _ => rfl] at h
  obtain ⟨e, es, rfl, h⟩ := h
  cases hreq : w.req.requestor with
  | none =>
    rw [hreq, Machine.replay_perform] at h
    obtain ⟨e', rfl, he⟩ := h
    have he : World.exec t .currentProcess e' _ = some (p, w') := he
    obtain ⟨w₁, hs, rfl⟩ := World.exec_step he
    obtain ⟨rfl, rfl⟩ := Prod.mk.inj (Option.some.inj hs)
    exact ⟨rfl, rfl, ⟨rfl, rfl, rfl⟩, rfl⟩
  | some p =>
    rw [hreq] at h
    obtain ⟨rfl, rfl, rfl⟩ := Machine.replay_pure.mp h
    exact ⟨rfl, rfl, ⟨rfl, rfl, rfl⟩, rfl⟩

theorem replay_attachTo {t : Tid} {es : List Choice} {process : Process} {w w' : World}
    {saved : Option Process} (h : driverMachine.replay t (attachTo process) es w = some (saved, w')) :
    es.length = if process = w.curProc t then 1 else 2 := by
  unfold attachTo at h
  rw [Replay.det_bind (x := w.curProc t) (w := w) fun _ => rfl] at h
  obtain ⟨e, es, rfl, h⟩ := h
  split at h
  · rename_i hother
    rw [Replay.op_bind] at h
    obtain ⟨e', es, _, w₁, rfl, -, h⟩ := h
    obtain ⟨rfl, -, -⟩ := Machine.replay_pure.mp h
    rw [if_neg hother]
    rfl
  · rename_i hsame
    obtain ⟨rfl, -, -⟩ := Machine.replay_pure.mp h
    rw [if_pos (not_not.mp hsame)]
    rfl

theorem step_mapView {t : Tid} {phys size : UInt64} {addr : Nat} {e : Choice} {w w' : World}
    {r : Except NtStatus UInt64} (h : w.step t (.mapView phys size addr) e = some (r, w')) :
    (∃ base, r = .ok base) ↔ ∃ a, e = .address a := by
  cases e with
  | address a =>
    simp only [World.step, World.addView, Option.ite_none_right_eq_some, Option.some.injEq,
      Prod.mk.injEq] at h
    obtain ⟨-, rfl, -⟩ := h
    simp
  | fail s =>
    simp only [World.step, Option.ite_none_left_eq_some, Option.some.injEq, Prod.mk.injEq] at h
    obtain ⟨-, rfl, -⟩ := h
    simp
  | _ => cases h

/-- Whether the section opens and the view maps is the first choice, and the one after the
thread has attached. -/
theorem replay_mapSysmemToUser {t : Tid} {es : List Choice} (rest : List Choice)
    {phys length : UInt64} {process : Process} {addr : Nat} {w w' : World}
    {r : Except NtStatus (UInt64 × UInt64)}
    (h : driverMachine.replay t (mapSysmemToUser phys length process addr) es w = some (r, w')) :
    (∃ p, r = .ok p) ↔ (es ++ rest)[0]? = some .unit ∧
      ∃ a, (es ++ rest)[if process = w.curProc t then 2 else 3]? = some (.address a) := by
  unfold mapSysmemToUser at h
  rw [Replay.op_bind] at h
  obtain ⟨e₀, es, s, w₁, rfl, hopen, h⟩ := h
  have hopened : (s.ok = true ↔ e₀ = .unit) ∧ w₁.curProc = w.curProc := by
    refine ⟨?_, (World.step_frame hopen).curProc id ▸ rfl⟩
    cases e₀ with
    | unit =>
      obtain ⟨rfl, -⟩ := Prod.mk.inj (Option.some.inj hopen)
      simp [NtStatus.ok, NtStatus.code]
    | fail s' =>
      simp only [World.step, Option.ite_none_left_eq_some, Option.some.injEq, Prod.mk.injEq] at hopen
      obtain ⟨hbad, rfl, -⟩ := hopen
      simp [hbad]
    | _ => cases hopen
  split at h
  · rename_i hbad
    obtain ⟨-, rfl, -⟩ := Machine.replay_pure.mp h
    have hne : e₀ ≠ .unit := fun heq => by simp [hopened.1.mpr heq] at hbad
    simp [hne]
  rename_i hok
  have hunit : e₀ = .unit := hopened.1.mp (by simpa using hok)
  rw [Machine.replay_bind] at h
  obtain ⟨es₁, es₂, saved, w₂, rfl, hattach, h⟩ := h
  have hlen := replay_attachTo hattach
  rw [World.record_curProc, hopened.2] at hlen
  rw [Replay.op_bind] at h
  obtain ⟨e, es₃, base, w₃, rfl, hmap, h⟩ := h
  have hview := step_mapView hmap
  rw [Machine.replay_bind] at h
  obtain ⟨es₄, es₅, _, w₄, rfl, -, h⟩ := h
  rw [Replay.op_bind] at h
  obtain ⟨e', es₆, _, w₅, rfl, -, h⟩ := h
  -- the answer to the mapping is the choice after those of the attach
  have hat : (e₀ :: (es₁ ++ e :: (es₄ ++ e' :: es₆)) ++ rest)[
      if process = w.curProc t then 2 else 3]? = some e := by
    have hindex : (if process = w.curProc t then 2 else 3) = es₁.length + 1 := by
      rw [hlen]
      split <;> rfl
    rw [hindex, List.cons_append, List.getElem?_cons_succ, List.append_assoc,
      List.getElem?_append_right (Nat.le_refl _), Nat.sub_self]
    rfl
  rw [hat, hunit]
  simp only [List.cons_append, List.getElem?_cons_zero, true_and, Option.some.injEq]
  rw [← hview]
  cases base with
  | error s =>
    obtain ⟨-, rfl, -⟩ := Machine.replay_pure.mp h
    simp
  | ok base =>
    obtain ⟨-, rfl, -⟩ := Machine.replay_pure.mp h
    simp

/-- The environment's choices from the pool allocation of MAP_SYSMEM on. -/
def osAnswers (w : World) (es : List Choice) : List Choice :=
  es.drop (if w.req.requestor = none then 10 else 9)

/-- MAP_SYSMEM passes its checks, and the OS grants the record, the section and the view. -/
structure MapSysmemGranted (t : Tid) (fileObject : Option FileObject) (w : World)
    (es : List Choice) : Prop where
  handle : fileObject ≠ none
  input : 16 ≤ w.req.inLen
  output : 16 ≤ w.req.outLen
  aligned : mapSysmemAligned (UInt64.ofNat (leNat w.req.inBuf 0 8))
    (UInt64.ofNat (leNat w.req.inBuf 8 8)) = true
  verified : w.ctx.sysmemVerified = true
  inBounds : mapSysmemInBounds w.ctx (UInt64.ofNat (leNat w.req.inBuf 0 8))
    (UInt64.ofNat (leNat w.req.inBuf 8 8)) = true
  pool : ∃ a, (osAnswers w es)[0]? = some (.address a)
  opened : (osAnswers w es)[3]? = some .unit
  view : ∃ a, (osAnswers w es)[
    if w.req.requestor.getD (w.curProc t) = w.curProc t then 5 else 6]? = some (.address a)

theorem step_allocPool {t : Tid} {e : Choice} {w w' : World} {r : Option Nat}
    (h : w.step t .allocPool e = some (r, w')) : r = none ↔ ¬ ∃ a, e = .address a := by
  cases e with
  | address a =>
    simp only [World.step, Option.ite_none_right_eq_some, Option.some.injEq, Prod.mk.injEq] at h
    obtain ⟨-, rfl, -⟩ := h
    simp
  | fail s =>
    obtain ⟨rfl, -⟩ := Prod.mk.inj (Option.some.inj h)
    simp
  | _ => cases h

theorem replay_mapSysmemGrant {t : Tid} {es : List Choice} (rest : List Choice)
    {fileObject : Option FileObject} {w w' : World} {r : Except NtStatus UInt64}
    (h : driverMachine.replay t (mapSysmemGrant fileObject) es w = some (r, w')) :
    (∃ va, r = .ok va) ↔ MapSysmemGranted t fileObject w (es ++ rest) := by
  -- a refusal, for a reason that contradicts the condition
  have hrefuse : ∀ {es' : List Choice} {w₁ : World} {s : NtStatus} {c : Prop}, ¬ c →
      driverMachine.replay t (Pure.pure (.error s)) es' w₁ = some (r, w') →
      ((∃ va, r = .ok va) ↔ c) := by
    intro es' w₁ s c hc hpure
    obtain ⟨-, rfl, -⟩ := Machine.replay_pure.mp hpure
    simp [hc]
  cases fileObject with
  | none => exact hrefuse (fun hg => hg.handle rfl) h
  | some fo =>
  unfold mapSysmemGrant at h
  replace h := Replay.checkInput h
  obtain ⟨e₀, es, rfl, ⟨hin, w₀, h⟩ | ⟨hin, h⟩⟩ := h
  · exact hrefuse (fun hg => absurd hg.input (by omega)) h
  replace h := Replay.checkOutput h
  obtain ⟨e₁, es, rfl, ⟨hout, w₁, h⟩ | ⟨hout, h⟩⟩ := h
  · exact hrefuse (fun hg => absurd hg.output (Nat.not_le.mpr hout)) h
  rw [Replay.inU64_bind] at h
  obtain ⟨e₂, es, rfl, h⟩ := h
  rw [Replay.inU64_bind] at h
  obtain ⟨e₃, es, rfl, h⟩ := h
  split at h
  · rename_i hbad
    exact hrefuse (fun hg => by simp [hg.aligned] at hbad) h
  rename_i haligned
  rw [acquire, Replay.op_bind] at h
  obtain ⟨e₄, es, _, w₅, rfl, hacquire, h⟩ := h
  have hf₅ := World.step_frame hacquire
  rw [Replay.load_bind] at h
  obtain ⟨e₅, es, rfl, h⟩ := h
  rw [release, Replay.op_bind] at h
  obtain ⟨e₆, es, _, w₇, rfl, hrelease, h⟩ := h
  have hf₇ := World.step_frame hrelease
  have hctx₅ : w₅.ctx = w.ctx := by simpa only [World.record_ctx, Op.effect] using hf₅.ctx
  have hctx₇ : w₇.ctx = w.ctx := by
    simpa only [World.record_ctx, Op.effect, hctx₅] using hf₇.ctx
  have hreq₅ : w₅.req = w.req := by simpa only [World.record_req] using hf₅.req id
  have hreq₇ : w₇.req = w.req := by simpa only [World.record_req, hreq₅] using hf₇.req id
  have hcur₅ : w₅.curProc = w.curProc := by simpa only [World.record_curProc] using hf₅.curProc id
  have hcur₇ : w₇.curProc = w.curProc := by
    simpa only [World.record_curProc, hcur₅] using hf₇.curProc id
  split at h
  · rename_i hbad
    refine hrefuse (fun hg => ?_) h
    have hverified : w₅.ctx.sysmemVerified = true := by rw [hctx₅]; exact hg.verified
    simp [hverified] at hbad
  rename_i hverified
  rw [Replay.load_bind] at h
  obtain ⟨e₇, es, rfl, h⟩ := h
  split at h
  · rename_i hbad
    refine hrefuse (fun hg => ?_) h
    have hinside := hg.inBounds
    rw [← hctx₇] at hinside
    simp only [World.record_ctx, World.record_req, hinside] at hbad
    exact absurd hbad (by simp)
  rename_i hbounds
  rw [Machine.replay_bind] at h
  obtain ⟨es₁, es₂, process, w₈, rfl, hprocess, h⟩ := h
  obtain ⟨hwhich, hlen, -, hcur₈⟩ := replay_mappingProcess hprocess
  simp only [World.record_req, World.record_curProc, hreq₇, hcur₇] at hwhich hlen hcur₈
  rw [Replay.op_bind] at h
  obtain ⟨e₉, es₃, addr, w₉, rfl, hpool, h⟩ := h
  have hf₉ := World.step_frame hpool
  have hcur₉ : w₉.curProc = w.curProc := by rw [hf₉.curProc id, hcur₈]
  -- the record's allocation is answered by the first of the answers
  have hanswers : ∀ es', osAnswers w (e₀ :: e₁ :: e₂ :: e₃ :: e₄ :: e₅ :: e₆ :: e₇ ::
      (es₁ ++ e₉ :: es') ++ rest) = e₉ :: es' ++ rest := by
    intro es'
    have hskip : (if w.req.requestor = none then 10 else 9) = 8 + es₁.length := by
      rw [hlen]
      split <;> rfl
    rw [osAnswers, hskip, Nat.add_comm]
    simp only [List.cons_append, List.append_assoc, List.drop_succ_cons]
    exact List.drop_left
  cases addr with
  | none =>
    refine hrefuse (fun hg => ?_) h
    obtain ⟨a, ha⟩ := hg.pool
    rw [hanswers, List.cons_append, List.getElem?_cons_zero, Option.some.injEq] at ha
    exact (step_allocPool hpool).mp rfl ⟨a, ha⟩
  | some addr =>
  have haddress : ∃ a, e₉ = .address a := by
    by_contra hnone
    exact absurd ((step_allocPool hpool).mpr hnone) (by simp)
  rw [Replay.op_bind] at h
  obtain ⟨e₁₀, es₄, _, w₁₀, rfl, href, h⟩ := h
  have hcur₁₀ : w₁₀.curProc = w.curProc := by
    simpa only [World.record_curProc, hcur₉] using (World.step_frame href).curProc id
  rw [Replay.load_bind] at h
  obtain ⟨e₁₁, es₅, rfl, h⟩ := h
  rw [Machine.replay_bind] at h
  obtain ⟨es₆, es₇, r', w₁₂, rfl, hmap, h⟩ := h
  have hmapped := replay_mapSysmemToUser (es₇ ++ rest) hmap
  simp only [World.record_curProc, hcur₁₀, hwhich] at hmapped
  -- a view is the last thing that can be refused
  have hview : (∃ va, r = .ok va) ↔ ∃ p, r' = .ok p := by
    cases r' with
    | error s =>
      rw [Replay.op_bind] at h
      obtain ⟨_, _, _, _, -, -, h⟩ := h
      rw [Replay.op_bind] at h
      obtain ⟨_, _, _, _, -, -, h⟩ := h
      obtain ⟨-, rfl, -⟩ := Machine.replay_pure.mp h
      simp
    | ok p =>
      obtain ⟨sectionBase, userVa⟩ := p
      dsimp only at h
      rw [locked, Replay.op_bind] at h
      obtain ⟨_, _, _, _, -, -, h⟩ := h
      obtain ⟨-, rfl, -⟩ := Machine.replay_pure.mp h
      simp
  have hrest : ∀ i, (osAnswers w (e₀ :: e₁ :: e₂ :: e₃ :: e₄ :: e₅ :: e₆ :: e₇ ::
      (es₁ ++ e₉ :: e₁₀ :: e₁₁ :: (es₆ ++ es₇)) ++ rest))[i + 3]? =
        (es₆ ++ (es₇ ++ rest))[i]? := by
    intro i
    rw [hanswers]
    simp only [List.cons_append, List.append_assoc, List.getElem?_cons_succ]
  rw [hview, hmapped]
  constructor
  · rintro ⟨hopened, hviewed⟩
    refine ⟨by simp, hin, hout, ?_, ?_, ?_, ?_, ?_, ?_⟩
    · simpa only [World.record_req, Bool.not_eq_true', Bool.not_eq_false] using haligned
    · simpa only [World.record_ctx, hctx₅, Bool.not_eq_true', Bool.not_eq_false] using hverified
    · simpa only [World.record_ctx, World.record_req, hctx₇, Bool.not_eq_true', Bool.not_eq_false]
        using hbounds
    · rw [hanswers]
      obtain ⟨a, rfl⟩ := haddress
      exact ⟨a, rfl⟩
    · rw [hrest 0]
      exact hopened
    · obtain ⟨a, ha⟩ := hviewed
      refine ⟨a, ?_⟩
      rw [← ha, ← hrest]
      split <;> rfl
  · intro hg
    have hopened := hg.opened
    rw [hrest 0] at hopened
    refine ⟨hopened, ?_⟩
    obtain ⟨a, ha⟩ := hg.view
    refine ⟨a, ?_⟩
    rw [← ha, ← hrest]
    split <;> rfl

/-! ## One buffer against two -/

namespace World

/-- The request's output buffer is its input buffer. -/
def oneBuffer (w : World) : World := { w with req := { w.req with aliased := true } }

/-- The request has an output buffer of its own. -/
def twoBuffers (w : World) : World := { w with req := { w.req with aliased := false } }

theorem overlaid_start (w : World) : Overlaid 0 w.oneBuffer w.twoBuffers where
  same := rfl
  request := rfl
  separate := rfl
  written i hi := absurd hi (Nat.not_lt_zero i)
  unread _ _ := rfl

/-- The bytes written agree. -/
theorem Overlaid.output {n : Nat} {u v : World} (h : Overlaid n u v) (i : Nat) (hi : i < n) :
    u.req.output i = v.req.output i := by
  have halias : u.req.aliased = true := by rw [h.request]
  simp only [Request.output, halias, h.separate, if_true]
  exact h.written i hi

end World

/-- The ioctls with an input and an output structure. -/
def Ioctl.hasBoth : Ioctl → Bool
  | .mapBar | .allocateTlb | .mapTlb | .smcMsg | .mapSysmem => true
  | _ => false

/-- The reply in `u` carries the Length requested in `w`. -/
def CarriesLength (code : Ioctl) (w u : World) : Prop :=
  match code with
  | .mapBar => leNat u.req.output 8 8 = leNat w.req.inBuf 16 8
  | .mapSysmem => leNat u.req.output 8 8 = leNat w.req.inBuf 8 8
  | _ => True

/-- Code that leaves the buffers alone leaves the request. -/
theorem solo_notBuffered {t : Tid} {α : Type} {p : Drv α} (hp : p.Only fun o => ¬ Op.buffered o)
    {w w' : World} {a : α} (h : Solo driverMachine t p w a w') : w'.req = w.req := by
  refine Solo.keeps (F := fun w w' => w'.req = w.req) (fun _ => rfl)
    (fun {u v w} (h₁ : v.req = u.req) (h₂ : w.req = v.req) => h₂.trans h₁)
    (fun o ho {e w x w₁} he => ?_) hp h
  refine (World.exec_frame (o := o) he).req fun hw => ho ?_
  cases o <;> first | exact hw | exact (hw : False).elim

/-- No code moves the request's buffers. -/
theorem solo_aliased {t : Tid} {α : Type} {p : Drv α} {w w' : World} {a : α}
    (h : Solo driverMachine t p w a w') : w'.req.aliased = w.req.aliased :=
  Solo.keeps (K := fun _ => True) (F := fun w w' => w'.req.aliased = w.req.aliased) (fun _ => rfl)
    (fun {u v w} (h₁ : v.req.aliased = u.req.aliased) (h₂ : w.req.aliased = v.req.aliased) =>
      h₂.trans h₁)
    (fun o _ {_ _ _ _} he => (World.exec_frame (o := o) he).aliased) (Prog.only_true p) h

/-! ## The Length of a reply -/

theorem solo_mapIoToUser_error {t : Tid} {phys length : UInt64} {wc : Bool} {process : Process}
    {addr : Nat} {w w' : World} {s : NtStatus}
    (h : Solo driverMachine t (mapIoToUser phys length wc process addr) w (.error s) w') :
    s ≠ .success := by
  unfold mapIoToUser at h
  obtain ⟨allocated, w₁, -, h⟩ := Solo.bind_iff.mp h
  split at h
  · obtain ⟨heq, -⟩ := Solo.pure_iff.mp h
    rw [Except.error.inj heq]
    simp
  obtain ⟨saved, w₂, -, h⟩ := Solo.bind_iff.mp h
  obtain ⟨userVa, w₃, -, h⟩ := Solo.bind_iff.mp h
  obtain ⟨_, w₄, -, hend⟩ := Solo.bind_iff.mp h
  cases userVa with
  | error status =>
    obtain ⟨_, w₅, -, hpure⟩ := Solo.bind_iff.mp hend
    obtain ⟨heq, -⟩ := Solo.pure_iff.mp hpure
    rw [Except.error.inj heq]
    split
    · simp
    · exact except_ne ‹_›
  | ok va =>
    obtain ⟨heq, -⟩ := Solo.pure_iff.mp hend
    cases heq

theorem solo_createUserMapping_error {t : Tid} {fileObject : Option FileObject}
    {phys length : UInt64} {mode : UInt32} {tlbId : Int} {w w' : World} {s : NtStatus}
    (h : Solo driverMachine t (createUserMapping fileObject phys length mode tlbId) w (.error s) w') :
    s ≠ .success := by
  have hconst : ∀ {r : NtStatus} {w₁ : World}, r ≠ .success →
      Solo driverMachine t (Pure.pure (.error r) : Drv (Except NtStatus UInt64)) w₁ (.error s) w' →
      s ≠ .success := by
    intro r w₁ hr hpure
    obtain ⟨heq, -⟩ := Solo.pure_iff.mp hpure
    rw [Except.error.inj heq]
    exact hr
  cases fileObject with
  | none => exact hconst (by simp) h
  | some fo =>
  unfold createUserMapping at h
  obtain ⟨process, w₁, -, h⟩ := Solo.bind_iff.mp h
  obtain ⟨addr, w₂, -, hrest⟩ := Solo.bind_iff.mp h
  cases addr with
  | none => exact hconst (by simp) hrest
  | some addr =>
  obtain ⟨_, w₃, -, h⟩ := Solo.bind_iff.mp hrest
  obtain ⟨r, w₄, hmap, hrest⟩ := Solo.bind_iff.mp h
  cases r with
  | error status =>
    obtain ⟨_, w₅, -, h⟩ := Solo.bind_iff.mp hrest
    obtain ⟨_, w₆, -, h⟩ := Solo.bind_iff.mp h
    exact hconst (solo_mapIoToUser_error hmap) h
  | ok p =>
    obtain ⟨inserted, w₅, -, h⟩ := Solo.bind_iff.mp hrest
    split at h
    · obtain ⟨_, w₆, -, h⟩ := Solo.bind_iff.mp h
      exact hconst (by simp) h
    · obtain ⟨heq, -⟩ := Solo.pure_iff.mp h
      cases heq

/-- A successful MAP_BAR replies the Length requested, whichever buffers it has. -/
theorem solo_ioctlMapBar_length {t : Tid} {fileObject : Option FileObject} {w w' : World} {n : Nat}
    (h : Solo driverMachine t (ioctlMapBar fileObject) w (.success, n) w') :
    leNat w'.req.output 8 8 = leNat w.req.inBuf 16 8 := by
  unfold ioctlMapBar at h
  simp only [Solo.checkInput_iff, Solo.checkOutput_iff, Solo.load_bind, Solo.inU32_bind,
    Solo.inU64_bind] at h
  obtain ⟨-, -, h⟩ := h
  rw [Solo.refuse_iff (by simp)] at h
  obtain ⟨-, h⟩ := h
  obtain ⟨r, w₁, hcreate, hrest⟩ := Solo.bind_iff.mp h
  have hreq := solo_notBuffered
    (createUserMapping_only (mappingScope_notBuffered fileObject) _ _ _ (.inl rfl)) hcreate
  simp only [World.record_req] at hreq
  cases r with
  | error s =>
    obtain ⟨heq, -⟩ := Solo.pure_iff.mp hrest
    exact absurd (Prod.mk.inj heq).1.symm (solo_createUserMapping_error hcreate)
  | ok va =>
    simp only [Solo.outZero_bind, Solo.outU64_bind, Solo.inU64_bind] at hrest
    obtain ⟨-, rfl⟩ := Solo.pure_iff.mp hrest
    -- the field read last lies beyond what the reply has overwritten, or in another buffer
    have hread : ∀ (r : Request) (va : UInt64),
        leNat ((r.write fun b i => if i < 16 then 0 else b i).write
          fun b => leStore b 0 8 va.toNat).inBuf 16 8 = leNat r.inBuf 16 8 := by
      intro r va
      refine leNat_congr fun i hlo _ => ?_
      rw [Request.write_inBuf (leStore_of_not_mem (by omega)),
        Request.write_inBuf (if_neg (by omega))]
    simp only [World.record_req, Request.output_write]
    rw [leNat_leStore, hread, hreq]
    have hlt := leNat_lt w.req.inBuf 16 8
    rw [UInt64.toNat_ofNat']
    omega

theorem solo_mapSysmemReply_ok {t : Tid} {va : UInt64} {w w' : World} {r : NtStatus × Nat}
    (h : Solo driverMachine t (mapSysmemReply (.ok va)) w r w') : r = (.success, 16) := by
  unfold mapSysmemReply at h
  simp only [Solo.outZero_bind, Solo.outU64_bind, Solo.inU64_bind] at h
  exact (Solo.pure_iff.mp h).1

/-- With one buffer the reply of MAP_SYSMEM carries the Length it has just zeroed. -/
theorem solo_mapSysmemReply_length {t : Tid} {va : UInt64} {w w' : World} {r : NtStatus × Nat}
    (halias : w.req.aliased = true)
    (h : Solo driverMachine t (mapSysmemReply (.ok va)) w r w') :
    leNat w'.req.output 8 8 = 0 := by
  unfold mapSysmemReply at h
  simp only [Solo.outZero_bind, Solo.outU64_bind, Solo.inU64_bind] at h
  obtain ⟨-, rfl⟩ := Solo.pure_iff.mp h
  have hread : leNat ((w.req.write fun b i => if i < 16 then 0 else b i).write
      fun b => leStore b 0 8 va.toNat).inBuf 8 8 = 0 := by
    refine leNat_eq_zero fun i hlo hhi => ?_
    rw [Request.write_inBuf (leStore_of_not_mem (by omega)), Request.write, if_pos halias]
    exact if_pos (by omega)
  simp only [World.record_req, Request.output_write]
  rw [leNat_leStore, hread]
  rfl

theorem ioctlHandler_overlay {code : Ioctl} (hcode : code.hasBoth = true)
    (hsysmem : code ≠ .mapSysmem) (fileObject : Option FileObject) :
    Overlay InReply 0 (ioctlHandler fileObject code) := by
  cases code with
  | mapBar => exact ioctlMapBar_overlay fileObject
  | allocateTlb => exact ioctlAllocateTlb_overlay fileObject
  | mapTlb => exact ioctlMapTlb_overlay fileObject
  | smcMsg => exact ioctlSmcMsg_overlay
  | mapSysmem => exact absurd rfl hsysmem
  | _ => cases hcode

theorem mapSysmemGranted_twoBuffers {t : Tid} {fileObject : Option FileObject} {w : World}
    {es : List Choice} :
    MapSysmemGranted t fileObject w.twoBuffers es ↔ MapSysmemGranted t fileObject w es := by
  constructor
  · intro hg
    exact ⟨hg.handle, hg.input, hg.output, hg.aligned, hg.verified, hg.inBounds, hg.pool,
      hg.opened, hg.view⟩
  · intro hg
    exact ⟨hg.handle, hg.input, hg.output, hg.aligned, hg.verified, hg.inBounds, hg.pool,
      hg.opened, hg.view⟩

theorem mapSysmemGranted_oneBuffer {t : Tid} {fileObject : Option FileObject} {w : World}
    {es : List Choice} :
    MapSysmemGranted t fileObject w.oneBuffer es ↔ MapSysmemGranted t fileObject w es := by
  constructor
  · intro hg
    exact ⟨hg.handle, hg.input, hg.output, hg.aligned, hg.verified, hg.inBounds, hg.pool,
      hg.opened, hg.view⟩
  · intro hg
    exact ⟨hg.handle, hg.input, hg.output, hg.aligned, hg.verified, hg.inBounds, hg.pool,
      hg.opened, hg.view⟩

/-- MAP_SYSMEM on one buffer does what it does on two, and replies the Length requested,
exactly when it is refused. -/
theorem mapSysmem_agrees_iff {t : Tid} {fileObject : Option FileObject} {es : List Choice}
    {w v : World} {r : NtStatus × Nat}
    (h : driverMachine.replay t (ioctlMapSysmem fileObject) es w.twoBuffers = some (r, v)) :
    (∃ u, driverMachine.replay t (ioctlMapSysmem fileObject) es w.oneBuffer = some (r, u) ∧
        u = { v with req := u.req } ∧ (∀ i, i < r.2 → u.req.output i = v.req.output i) ∧
        (r.1 = .success → CarriesLength .mapSysmem w u)) ↔
      ¬ MapSysmemGranted t fileObject w es := by
  rw [ioctlMapSysmem_eq, Machine.replay_bind] at h
  obtain ⟨es₁, es₂, g, v₁, rfl, hgrant, hreply⟩ := h
  have hgranted := replay_mapSysmemGrant es₂ hgrant
  rw [mapSysmemGranted_twoBuffers] at hgranted
  obtain ⟨u₁, m, hu, hover, rfl⟩ := ((mapSysmemGrant_overlay fileObject).replay
    (World.overlaid_start w) es₁).2 g v₁ hgrant
  rw [← hgranted]
  cases g with
  | error s =>
    obtain ⟨rfl, rfl, rfl⟩ := Machine.replay_pure.mp hreply
    refine iff_of_true ⟨u₁, ?_, hover.same, fun i hi => absurd hi (Nat.not_lt_zero i), ?_⟩ (by simp)
    · rw [ioctlMapSysmem_eq, Machine.replay_bind]
      exact ⟨es₁, [], _, u₁, by simp, hu, rfl⟩
    · -- a refusal that reported success would have written its sixteen bytes
      intro hok
      obtain rfl : s = .success := hok
      have hrun : driverMachine.replay t (ioctlMapSysmem fileObject) es₁ w.oneBuffer =
          some ((.success, 0), u₁) := by
        rw [ioctlMapSysmem_eq, Machine.replay_bind]
        exact ⟨es₁, [], _, u₁, by simp, hu, rfl⟩
      obtain ⟨hbytes, -⟩ := solo_ioctlMapSysmem rfl rfl rfl (Solo.iff_replay.mpr ⟨es₁, hrun⟩)
      cases hbytes
  | ok va =>
    refine iff_of_false ?_ (by simp)
    rintro ⟨u, hrun, -, -, hlength⟩
    have hok : r = (.success, 16) := solo_mapSysmemReply_ok (Solo.iff_replay.mpr ⟨es₂, hreply⟩)
    subst hok
    rw [ioctlMapSysmem_eq, Machine.replay_bind] at hrun
    obtain ⟨es₁', es₂', g, u₂, hsplit, hgrant', hreply'⟩ := hrun
    have hgranted' := replay_mapSysmemGrant es₂' hgrant'
    rw [mapSysmemGranted_oneBuffer, ← hsplit, ← hgranted] at hgranted'
    obtain ⟨va', rfl⟩ := hgranted'.mpr ⟨va, rfl⟩
    have halias : u₂.req.aliased = true := solo_aliased (Solo.iff_replay.mpr ⟨es₁', hgrant'⟩)
    have hzero := solo_mapSysmemReply_length halias (Solo.iff_replay.mpr ⟨es₂', hreply'⟩)
    -- so the Length requested would be zero
    have hrequested : leNat w.req.inBuf 8 8 = 0 := (hlength rfl).symm.trans hzero
    have hpos := mapSysmemAligned_pos (hgranted.mp ⟨va, rfl⟩).aligned
    rw [hrequested] at hpos
    exact absurd hpos (by decide)

/-- On one buffer a handler does what it does on two, and its reply carries the Length
requested, exactly when it is not a MAP_SYSMEM that is granted. -/
theorem aliasing_agrees_iff {t : Tid} {fileObject : Option FileObject} {code : Ioctl}
    {es : List Choice} {w v : World} {r : NtStatus × Nat} (hcode : code.hasBoth = true)
    (h : driverMachine.replay t (ioctlHandler fileObject code) es w.twoBuffers = some (r, v)) :
    (∃ u, driverMachine.replay t (ioctlHandler fileObject code) es w.oneBuffer = some (r, u) ∧
        u = { v with req := u.req } ∧ (∀ i, i < r.2 → u.req.output i = v.req.output i) ∧
        (r.1 = .success → CarriesLength code w u)) ↔
      ¬ (code = .mapSysmem ∧ MapSysmemGranted t fileObject w es) := by
  by_cases hsysmem : code = .mapSysmem
  · subst hsysmem
    have hiff := mapSysmem_agrees_iff h
    rw [show (Ioctl.mapSysmem = Ioctl.mapSysmem ∧ MapSysmemGranted t fileObject w es) =
      MapSysmemGranted t fileObject w es by simp]
    exact hiff
  · refine iff_of_true ?_ fun hn => hsysmem hn.1
    obtain ⟨u, m, hu, hover, hreply⟩ :=
      ((ioctlHandler_overlay hcode hsysmem fileObject).replay (World.overlaid_start w) es).2 r v h
    have hreply : r.2 ≤ m := hreply
    refine ⟨u, hu, hover.same, fun i hi => hover.output i (by omega), fun hok => ?_⟩
    cases code with
    | mapBar =>
      obtain ⟨s, n⟩ := r
      obtain rfl : s = .success := hok
      have hu : driverMachine.replay t (ioctlMapBar fileObject) es w.oneBuffer =
        some ((.success, n), u) := hu
      have hlength := solo_ioctlMapBar_length (Solo.iff_replay.mpr ⟨es, hu⟩)
      exact hlength
    | mapSysmem => exact absurd rfl hsysmem
    | _ => trivial

theorem aliasing_agrees_iff_first_page :
    ∃ (r : NtStatus × Nat) (v : World),
      (∃ u, driverMachine.replay .ioctl (ioctlHandler (some 1) .mapSysmem) firstPageChoices
            (firstPageWorld 0x10000000).oneBuffer = some (r, u) ∧
          u = { v with req := u.req } ∧ (∀ i, i < r.2 → u.req.output i = v.req.output i) ∧
          (r.1 = .success → CarriesLength .mapSysmem (firstPageWorld 0x10000000) u)) ↔
        ¬ (Ioctl.mapSysmem = .mapSysmem ∧
          MapSysmemGranted .ioctl (some 1) (firstPageWorld 0x10000000) firstPageChoices) := by
  have hreplay : (driverMachine.replay .ioctl (ioctlHandler (some 1) .mapSysmem) firstPageChoices
      (firstPageWorld 0x10000000).twoBuffers).isSome = true := by decide
  obtain ⟨⟨r, v⟩, hrun⟩ := Option.isSome_iff_exists.mp hreplay
  exact ⟨r, v, aliasing_agrees_iff rfl hrun⟩

/-- A granted MAP_SYSMEM of one page: on one buffer the reply says that no byte was mapped. -/
theorem aliasing_disagrees :
    ¬ ∀ (t : Tid) (fileObject : Option FileObject) (code : Ioctl) (es : List Choice) (w v : World)
      (r : NtStatus × Nat), code.hasBoth = true →
      driverMachine.replay t (ioctlHandler fileObject code) es w.twoBuffers = some (r, v) →
      ∃ u, driverMachine.replay t (ioctlHandler fileObject code) es w.oneBuffer = some (r, u) ∧
        u = { v with req := u.req } ∧ (∀ i, i < r.2 → u.req.output i = v.req.output i) ∧
        (r.1 = .success → CarriesLength code w u) := by
  intro hclaim
  have htwo : (driverMachine.replay .ioctl (ioctlHandler (some 1) .mapSysmem) firstPageChoices
      (firstPageWorld 0x10000000).twoBuffers).any (fun p => p.1 == (.success, 16)) = true := by decide
  have hone : (driverMachine.replay .ioctl (ioctlHandler (some 1) .mapSysmem) firstPageChoices
      (firstPageWorld 0x10000000).oneBuffer).any (fun p => leNat p.2.req.output 8 8 == 0) = true := by
    decide
  rw [Option.any_eq_true] at htwo hone
  obtain ⟨⟨r, v⟩, hrun, hend⟩ := htwo
  obtain ⟨u, hu, -, -, hlength⟩ := hclaim _ _ _ _ _ _ _ rfl hrun
  have hok : r.1 = .success := congrArg Prod.fst (beq_iff_eq.mp hend)
  have hcarries : leNat u.req.output 8 8 = leNat (firstPageWorld 0x10000000).req.inBuf 8 8 :=
    hlength hok
  obtain ⟨⟨r', u'⟩, hu', hzero⟩ := hone
  obtain ⟨-, rfl⟩ := Prod.mk.inj (Option.some.inj (hu.symm.trans hu'))
  exact absurd (hcarries.symm.trans (beq_iff_eq.mp hzero)) (by decide)

end TtWind
