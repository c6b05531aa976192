import TtWind.Effect.Private
import TtWind.Laws.Programs
import TtWind.Laws.Schedule
import TtWind.Laws.Sections

/-!
# Prepare and release are balanced

What the hardware callbacks acquire (the kernel mappings of the register blocks, the sysmem
buffer and the bus interface) is told from the fields that hold it. Books are kept beside the
driver: how often each resource was acquired and released, and whether anything improper was
done, a release of what is not held with that size or a field overwritten while it holds a live
resource. Only the hardware thread changes any of it, so its code is checked alone.
-/

set_option autoImplicit false

namespace TtWind

open TtWind.Effect TtWind.Effect.Prog

/-- What PrepareHardware acquires, with the size it asks for. -/
inductive Resource where
  | mapping (base len : Nat)
  | buffer (va : Nat) (size : UInt64)
  | busInterface
  deriving DecidableEq, Repr

/-- The fields, and what is live. -/
structure Stock where
  fields : Holdings
  maps : List IoMap
  contiguous : List Contiguous
  busRefs : Int
  started : Bool

def World.stock (w : World) : Stock := ⟨w.ctx.holdings, w.ioMaps, w.contiguous, w.busRefs, w.started⟩

namespace Stock

/-- A resource is live, with that size. -/
def Live (v : Stock) : Resource → Prop
  | .mapping base len => ∃ m ∈ v.maps, m.base = base ∧ m.len = len
  | .buffer va size => ∃ m ∈ v.contiguous, m.va = va ∧ m.size = size
  | .busInterface => 0 < v.busRefs

/-- No field that holds a live resource is overwritten. -/
structure Retains (v : Stock) (h : Holdings) : Prop where
  ptr : ∀ b a, v.fields.ptr b = some a → (∃ m ∈ v.maps, m.base = a) → h.ptr b = some a
  va : ∀ a, v.fields.va = some a → (∃ m ∈ v.contiguous, m.va = a) → h.va = some a
  bus : v.fields.bus = true → 0 < v.busRefs → h.bus = true

end Stock

/-- How often each resource was acquired and released, and that nothing improper was done. -/
structure Books where
  acquired : Resource → Nat := fun _ => 0
  released : Resource → Nat := fun _ => 0
  proper : Prop := True

namespace Books

def acquire (g : Books) (r : Resource) : Books :=
  { g with acquired := Function.update g.acquired r (g.acquired r + 1) }

/-- A release is proper if the resource is live with that size. -/
def release (g : Books) (v : Stock) (r : Resource) : Books :=
  { g with
    released := Function.update g.released r (g.released r + 1)
    proper := g.proper ∧ v.Live r }

/-- A step that is proper under a condition. -/
def require (g : Books) (p : Prop) : Books := { g with proper := g.proper ∧ p }

end Books

/-- The books of a run. A query of the bus interface overwrites the interface held. -/
def bookkeeper : Observer DriverSig Tid World Books where
  initial _ g := g = {}
  note
    | _, .mapIoSpace _ len, p, _, g =>
      match p with
      | some base => g.acquire (.mapping base len)
      | none => g
    | _, .unmapIoSpace p len, _, w, g =>
      match p with
      | some base => g.release w.stock (.mapping base len)
      | none => g.require False
    | _, .allocContiguous size _ _, p, _, g =>
      match p with
      | some va => g.acquire (.buffer va size)
      | none => g
    | _, .freeContiguous p size, _, w, g =>
      match p with
      | some va => g.release w.stock (.buffer va size)
      | none => g.require False
    | _, .queryInterface, status, w, g =>
      if status.ok then
        (g.acquire .busInterface).require (w.ctx.busIfValid = true → ¬ w.stock.Live .busInterface)
      else g
    | _, .dereferenceInterface, _, w, g => g.release w.stock .busInterface
    | _, .store f, _, w, g => g.require (w.stock.Retains (f w.ctx).holdings)
    | _, _, _, _, g => g

/-- What is watched of the hardware. -/
def inventory (x : World × Books) : Stock × Books := (x.1.stock, x.2)

/-! ## Operations -/

/-- Operations that leave the inventory. -/
def Op.SparesStock : Op → Prop
  | .store f => ∀ c, (f c).holdings = c.holdings
  | .mapIoSpace _ _ | .unmapIoSpace _ _ | .allocContiguous _ _ _ | .freeContiguous _ _
  | .queryInterface | .dereferenceInterface => False
  | _ => True

theorem Books.require_true {g : Books} {p : Prop} (h : p) : g.require p = g := by
  have hp : (g.proper ∧ p) = g.proper := propext (and_iff_left h)
  unfold Books.require
  rw [hp]

theorem Stock.retains_self (v : Stock) : v.Retains v.fields := ⟨fun _ _ h _ => h, fun _ h _ => h, fun h _ => h⟩

section Exec

variable {t : Tid} {o : Op} {e : Choice} {a : o.Ans} {x y : World × Books} {w w' : World}

/-- What an operation that is no store and moves no resource leaves. -/
theorem exec_stock (he : w.exec t o e = some (a, w')) (hio : ¬ o.movesIo) (hcont : ¬ o.movesContiguous)
    (hbus : ¬ o.movesBus) : w'.stock = { w.stock with fields := (o.effect w.ctx).holdings } := by
  have hf := World.exec_frame he
  unfold World.stock
  rw [hf.ctx, hf.ioMaps hio, hf.contiguous hcont, hf.busRefs hbus, hf.started]

theorem Op.SparesStock.inventory (ho : o.SparesStock)
    (he : (driverMachine.observe bookkeeper).exec t o e x = some (a, y)) : inventory y = inventory x := by
  obtain ⟨hexec, -, hnote⟩ := watched_exec he
  have hio : ¬ o.movesIo := by
    intro h
    cases o <;> first | exact ho | exact h
  have hcont : ¬ o.movesContiguous := by
    intro h
    cases o <;> first | exact ho | exact h
  have hbus : ¬ o.movesBus := by
    intro h
    cases o <;> first | exact ho | exact h
  have hfields : (o.effect x.1.ctx).holdings = x.1.ctx.holdings := by
    cases o with
    | store f => exact ho x.1.ctx
    | locked s =>
      show (s.run x.1.ctx).2.holdings = x.1.ctx.holdings
      rw [Section.run_frame x.1.ctx s]
      rfl
    | _ => rfl
  have hstock : y.1.stock = x.1.stock := by
    rw [exec_stock hexec hio hcont hbus, hfields]
    rfl
  have hbooks : y.2 = x.2 := by
    rw [hnote]
    cases o with
    | store f =>
      refine Books.require_true ?_
      rw [ho x.1.ctx]
      exact x.1.stock.retains_self
    | _ => first | rfl | exact (ho : False).elim
  exact Prod.ext hstock hbooks

/-- A mapping is made at an address that is not in use, or not at all. -/
theorem exec_mapIoSpace {phys : UInt64} {len : Nat} {p : IoPtr}
    (he : w.exec t (.mapIoSpace phys len) e = some (p, w')) :
    (∃ base, p = some base ∧ (∀ m ∈ w.ioMaps, m.base ≠ base) ∧
      w'.stock = { w.stock with maps := ⟨base, phys, len⟩ :: w.stock.maps }) ∨
    (p = none ∧ w'.stock = w.stock) := by
  obtain ⟨w₁, hs, rfl⟩ := World.exec_step he
  cases e with
  | address base =>
    simp only [World.step, Option.ite_none_right_eq_some, Option.some.injEq, Prod.mk.injEq] at hs
    obtain ⟨hfree, rfl, rfl⟩ := hs
    refine .inl ⟨base, rfl, fun m hm => ?_, rfl⟩
    simpa using List.all_eq_true.mp hfree m hm
  | fail s =>
    obtain ⟨rfl, rfl⟩ := Prod.mk.inj (Option.some.inj hs)
    exact .inr ⟨rfl, rfl⟩
  | _ => cases hs

theorem exec_unmapIoSpace {p : IoPtr} {len : Nat} {u : Unit}
    (he : w.exec t (.unmapIoSpace p len) e = some (u, w')) :
    w'.stock = { w.stock with maps := w.stock.maps.filter fun m => !(some m.base == p) } := by
  obtain ⟨w₁, hs, rfl⟩ := World.exec_step he
  obtain ⟨-, rfl⟩ := Prod.mk.inj (Option.some.inj hs)
  rfl

theorem exec_allocContiguous {size highest : UInt64} {node : Option UInt32} {p : IoPtr}
    (he : w.exec t (.allocContiguous size highest node) e = some (p, w')) :
    (∃ va phys, p = some va ∧
      w'.stock = { w.stock with contiguous := ⟨va, phys, size⟩ :: w.stock.contiguous }) ∨
    (p = none ∧ w'.stock = w.stock) := by
  obtain ⟨w₁, hs, rfl⟩ := World.exec_step he
  cases e with
  | region va phys =>
    simp only [World.step, Option.ite_none_right_eq_some, Option.some.injEq, Prod.mk.injEq] at hs
    obtain ⟨-, rfl, rfl⟩ := hs
    exact .inl ⟨va, phys, rfl, rfl⟩
  | fail s =>
    obtain ⟨rfl, rfl⟩ := Prod.mk.inj (Option.some.inj hs)
    exact .inr ⟨rfl, rfl⟩
  | _ => cases hs

theorem exec_freeContiguous {p : IoPtr} {size : UInt64} {u : Unit}
    (he : w.exec t (.freeContiguous p size) e = some (u, w')) :
    w'.stock = { w.stock with contiguous := w.stock.contiguous.filter fun m => !(some m.va == p) } := by
  obtain ⟨w₁, hs, rfl⟩ := World.exec_step he
  obtain ⟨-, rfl⟩ := Prod.mk.inj (Option.some.inj hs)
  rfl

theorem exec_queryInterface {status : NtStatus} (he : w.exec t .queryInterface e = some (status, w')) :
    (status.ok = true ∧ w'.stock = { w.stock with busRefs := w.stock.busRefs + 1 }) ∨
    (status.ok = false ∧ w'.stock = w.stock) := by
  obtain ⟨w₁, hs, rfl⟩ := World.exec_step he
  cases e with
  | unit =>
    obtain ⟨rfl, rfl⟩ := Prod.mk.inj (Option.some.inj hs)
    exact .inl ⟨rfl, rfl⟩
  | fail s =>
    simp only [World.step, Option.ite_none_left_eq_some, Option.some.injEq, Prod.mk.injEq] at hs
    obtain ⟨hfail, rfl, rfl⟩ := hs
    exact .inr ⟨by simpa using hfail, rfl⟩
  | _ => cases hs

theorem exec_dereferenceInterface {u : Unit} (he : w.exec t .dereferenceInterface e = some (u, w')) :
    w'.stock = { w.stock with busRefs := w.stock.busRefs - 1 } := by
  obtain ⟨w₁, hs, rfl⟩ := World.exec_step he
  obtain ⟨-, rfl⟩ := Prod.mk.inj (Option.some.inj hs)
  rfl

end Exec

/-! ## Tidy books -/

/-- The size a block is mapped with. -/
def RegBlock.len : RegBlock → Nat
  | .tlbRegs => tlbRegsLen
  | .kernelTlb => tlb2mSize.toNat
  | .arcApbAxi => arcApbBar0Len
  | .bar2Iatu => iatuRegsLen
  | .nocIdRegs => nocIdPageLen

def Holdings.setPtr (h : Holdings) (b : RegBlock) (p : IoPtr) : Holdings :=
  { h with ptr := Function.update h.ptr b p }

@[simp] theorem Holdings.setPtr_self (h : Holdings) (b : RegBlock) (p : IoPtr) :
    (h.setPtr b p).ptr b = p := by
  show Function.update h.ptr b p b = p
  rw [Function.update_self]

theorem Holdings.setPtr_of_ne (h : Holdings) {b b' : RegBlock} (p : IoPtr) (hb : b' ≠ b) :
    (h.setPtr b p).ptr b' = h.ptr b' := by
  show Function.update h.ptr b p b' = h.ptr b'
  rw [Function.update_of_ne hb]

@[simp] theorem Holdings.setPtr_va (h : Holdings) (b : RegBlock) (p : IoPtr) :
    (h.setPtr b p).va = h.va := rfl

@[simp] theorem Holdings.setPtr_bus (h : Holdings) (b : RegBlock) (p : IoPtr) :
    (h.setPtr b p).bus = h.bus := rfl

/-- What is live was acquired once more than it was released, and nothing else was. -/
def Books.Balanced (g : Books) (v : Stock) : Prop :=
  ∀ r, (v.Live r → g.acquired r = g.released r + 1) ∧ (¬ v.Live r → g.acquired r = g.released r)

/-- Nothing improper was done, what is live is what the fields hold, with its size, and the
books are balanced. -/
structure Tidy (v : Stock × Books) : Prop where
  proper : v.2.proper
  held : ∀ m ∈ v.1.maps, ∃ b, v.1.fields.ptr b = some m.base ∧ m.len = b.len
  live : ∀ b a, v.1.fields.ptr b = some a → ∃ m ∈ v.1.maps, m.base = a ∧ m.len = b.len
  apart : ∀ b b' a, v.1.fields.ptr b = some a → v.1.fields.ptr b' = some a → b = b'
  buffer : (v.1.fields.va = none ∧ v.1.contiguous = []) ∨
    ∃ m, v.1.contiguous = [m] ∧ v.1.fields.va = some m.va ∧ m.size = v.1.fields.size
  bus : v.1.busRefs = if v.1.fields.bus then 1 else 0
  balanced : v.2.Balanced v.1

/-- A resource that was not live is acquired. -/
theorem Books.Balanced.acquire {g : Books} {v v' : Stock} {r : Resource} (h : g.Balanced v)
    (hnew : ¬ v.Live r) (hlive : v'.Live r) (hother : ∀ r', r' ≠ r → (v'.Live r' ↔ v.Live r')) :
    (g.acquire r).Balanced v' := by
  intro r'
  by_cases hr : r' = r
  · subst hr
    refine ⟨fun _ => ?_, fun hn => absurd hlive hn⟩
    show Function.update g.acquired r' (g.acquired r' + 1) r' = g.released r' + 1
    rw [Function.update_self, (h r').2 hnew]
  · have hsame : (g.acquire r).acquired r' = g.acquired r' := Function.update_of_ne hr _ _
    rw [hother r' hr, hsame]
    exact h r'

/-- A resource that was live is released. -/
theorem Books.Balanced.release {g : Books} {v v' : Stock} {r : Resource} (h : g.Balanced v)
    (hlive : v.Live r) (hgone : ¬ v'.Live r) (hother : ∀ r', r' ≠ r → (v'.Live r' ↔ v.Live r')) :
    (g.release v r).Balanced v' := by
  intro r'
  by_cases hr : r' = r
  · subst hr
    refine ⟨fun hl => absurd hl hgone, fun _ => ?_⟩
    show g.acquired r' = Function.update g.released r' (g.released r' + 1) r'
    rw [Function.update_self, (h r').1 hlive]
  · have hsame : (g.release v r).released r' = g.released r' := Function.update_of_ne hr _ _
    rw [hother r' hr, hsame]
    exact h r'

namespace Tidy

variable {v : Stock} {g : Books} {b : RegBlock} {a : Nat}

/-- The mapping of a block whose field was empty. -/
theorem mapped (h : Tidy (v, g)) (hb : v.fields.ptr b = none) (hfree : ∀ m ∈ v.maps, m.base ≠ a)
    (phys : UInt64) :
    Tidy ({ v with fields := v.fields.setPtr b (some a), maps := ⟨a, phys, b.len⟩ :: v.maps },
      g.acquire (.mapping a b.len)) where
  proper := h.proper
  held m hm := by
    rcases List.mem_cons.mp hm with rfl | hm
    · exact ⟨b, v.fields.setPtr_self b _, rfl⟩
    · obtain ⟨b', hb', hlen⟩ := h.held m hm
      have hne : b' ≠ b := by
        rintro rfl
        rw [hb] at hb'
        cases hb'
      exact ⟨b', (v.fields.setPtr_of_ne _ hne).trans hb', hlen⟩
  live b' a' hb' := by
    by_cases hne : b' = b
    · subst hne
      have ha : some a = some a' := (v.fields.setPtr_self b' _).symm.trans hb'
      exact ⟨_, List.mem_cons_self, Option.some.inj ha, rfl⟩
    · obtain ⟨m, hm, hbase⟩ := h.live b' a' ((v.fields.setPtr_of_ne _ hne).symm.trans hb')
      exact ⟨m, List.mem_cons_of_mem _ hm, hbase⟩
  apart b₁ b₂ a' h₁ h₂ := by
    have hnew : ∀ b', b' ≠ b → (v.fields.setPtr b (some a)).ptr b' = some a' → a' ≠ a := by
      intro b' hne hb'
      obtain ⟨m, hm, hbase, -⟩ := h.live b' a' ((v.fields.setPtr_of_ne _ hne).symm.trans hb')
      exact hbase ▸ hfree m hm
    have hself : ∀ b', b' = b → (v.fields.setPtr b (some a)).ptr b' = some a' → a' = a := by
      rintro b' rfl hb'
      exact (Option.some.inj ((v.fields.setPtr_self b' _).symm.trans hb')).symm
    by_cases hb₁ : b₁ = b <;> by_cases hb₂ : b₂ = b
    · rw [hb₁, hb₂]
    · exact absurd (hself b₁ hb₁ h₁) (hnew b₂ hb₂ h₂)
    · exact absurd (hself b₂ hb₂ h₂) (hnew b₁ hb₁ h₁)
    · exact h.apart b₁ b₂ a' ((v.fields.setPtr_of_ne _ hb₁).symm.trans h₁)
        ((v.fields.setPtr_of_ne _ hb₂).symm.trans h₂)
  buffer := h.buffer
  bus := h.bus
  balanced := by
    refine Books.Balanced.acquire h.balanced ?_ ⟨_, List.mem_cons_self, rfl, rfl⟩ ?_
    · rintro ⟨m, hm, hbase, -⟩
      exact hfree m hm hbase
    · intro r hr
      cases r with
      | mapping base len =>
        constructor
        · rintro ⟨m, hm, hbase, hlen⟩
          rcases List.mem_cons.mp hm with rfl | hm
          · exact absurd (by rw [← hbase, ← hlen]) hr
          · exact ⟨m, hm, hbase, hlen⟩
        · rintro ⟨m, hm, hkey⟩
          exact ⟨m, List.mem_cons_of_mem _ hm, hkey⟩
      | _ => exact Iff.rfl

/-- The mapping of a block is undone, and its field emptied. -/
theorem unmapped (h : Tidy (v, g)) (hb : v.fields.ptr b = some a) :
    Tidy ({ v with
      fields := v.fields.setPtr b none, maps := v.maps.filter fun m => !(some m.base == some a) },
      g.release v (.mapping a b.len)) where
  proper := ⟨h.proper, h.live b a hb⟩
  held m hm := by
    obtain ⟨hm, hbase⟩ := List.mem_filter.mp hm
    obtain ⟨b', hb', hlen⟩ := h.held m hm
    have hne : b' ≠ b := by
      rintro rfl
      rw [hb, Option.some.injEq] at hb'
      simp [hb'] at hbase
    exact ⟨b', (v.fields.setPtr_of_ne _ hne).trans hb', hlen⟩
  live b' a' hb' := by
    have hne : b' ≠ b := by
      rintro rfl
      rw [Holdings.setPtr_self] at hb'
      cases hb'
    have hold : v.fields.ptr b' = some a' := (v.fields.setPtr_of_ne none hne).symm.trans hb'
    obtain ⟨m, hm, hbase, hlen⟩ := h.live b' a' hold
    have hother : a' ≠ a := by
      rintro rfl
      exact hne (h.apart b' b a' hold hb)
    refine ⟨m, List.mem_filter.mpr ⟨hm, ?_⟩, hbase, hlen⟩
    simpa [hbase] using hother
  apart b₁ b₂ a' h₁ h₂ := by
    have hold : ∀ {b'}, (v.fields.setPtr b none).ptr b' = some a' → v.fields.ptr b' = some a' := by
      intro b' hb'
      by_cases hne : b' = b
      · subst hne
        rw [Holdings.setPtr_self] at hb'
        cases hb'
      · exact (v.fields.setPtr_of_ne none hne).symm.trans hb'
    exact h.apart b₁ b₂ a' (hold h₁) (hold h₂)
  buffer := h.buffer
  bus := h.bus
  balanced := by
    refine Books.Balanced.release h.balanced (h.live b a hb) ?_ ?_
    · rintro ⟨m, hm, hbase, -⟩
      have hkept := (List.mem_filter.mp hm).2
      simp [hbase] at hkept
    · intro r hr
      cases r with
      | mapping base len =>
        constructor
        · rintro ⟨m, hm, hkey⟩
          exact ⟨m, (List.mem_filter.mp hm).1, hkey⟩
        · rintro ⟨m, hm, hbase, hlen⟩
          refine ⟨m, List.mem_filter.mpr ⟨hm, ?_⟩, hbase, hlen⟩
          -- at this address only the block's own mapping was live
          have hother : m.base ≠ a := by
            intro heq
            obtain ⟨b', hb', hlen'⟩ := h.held m hm
            obtain rfl : b' = b := h.apart b' b a (heq ▸ hb') hb
            exact hr (by rw [← hbase, ← hlen, heq, hlen'])
          simpa using hother
      | _ => exact Iff.rfl

/-- The buffer is allocated. -/
theorem allocated (h : Tidy (v, g)) (hva : v.fields.va = none) (phys size : UInt64) :
    Tidy ({ v with
      fields := { v.fields with va := some a, size }, contiguous := ⟨a, phys, size⟩ :: v.contiguous },
      g.acquire (.buffer a size)) where
  proper := h.proper
  held := h.held
  live := h.live
  apart := h.apart
  buffer := by
    rcases h.buffer with ⟨-, hnil⟩ | ⟨m, -, hm, -⟩
    · have hnil : v.contiguous = [] := hnil
      rw [hnil]
      exact .inr ⟨_, rfl, rfl, rfl⟩
    · have hm : v.fields.va = some m.va := hm
      rw [hva] at hm
      cases hm
  bus := h.bus
  balanced := by
    have hnil : v.contiguous = [] := by
      rcases h.buffer with ⟨-, hnil⟩ | ⟨m, -, hm, -⟩
      · exact hnil
      · have hm : v.fields.va = some m.va := hm
        rw [hva] at hm
        cases hm
    refine Books.Balanced.acquire h.balanced ?_ ⟨_, List.mem_cons_self, rfl, rfl⟩ ?_
    · rintro ⟨m, hm, -⟩
      rw [hnil] at hm
      cases hm
    · intro r hr
      cases r with
      | buffer va' size' =>
        show (∃ m ∈ _ :: v.contiguous, _) ↔ ∃ m ∈ v.contiguous, _
        rw [hnil]
        constructor
        · rintro ⟨m, hm, hva', hsize'⟩
          obtain rfl := List.mem_singleton.mp hm
          exact absurd (by rw [← hva', ← hsize']) hr
        · rintro ⟨m, hm, -⟩
          cases hm
      | _ => exact Iff.rfl

/-- The buffer is freed. -/
theorem freed (h : Tidy (v, g)) (hva : v.fields.va = some a) :
    Tidy ({ v with
      fields := { v.fields with va := none }
      contiguous := v.contiguous.filter fun m => !(some m.va == some a) },
      g.release v (.buffer a v.fields.size)) := by
  obtain ⟨m, hm, hfield, hsize⟩ : ∃ m, v.contiguous = [m] ∧ v.fields.va = some m.va ∧
      m.size = v.fields.size := by
    rcases h.buffer with ⟨hnone, -⟩ | hm
    · have hnone : v.fields.va = none := hnone
      rw [hva] at hnone
      cases hnone
    · exact hm
  have hbase : m.va = a := Option.some.inj (hfield.symm.trans hva)
  have hnil : (v.contiguous.filter fun m => !(some m.va == some a)) = [] := by
    rw [hm]
    simp [hbase]
  have hlive : v.Live (.buffer a v.fields.size) := ⟨m, hm ▸ List.mem_singleton_self m, hbase, hsize⟩
  refine ⟨⟨h.proper, hlive⟩, h.held, h.live, h.apart, .inl ⟨rfl, hnil⟩, h.bus, ?_⟩
  refine Books.Balanced.release h.balanced hlive ?_ ?_
  · rintro ⟨m', hm', -⟩
    rw [hnil] at hm'
    cases hm'
  · intro r hr
    cases r with
    | buffer va' size' =>
      show (∃ m ∈ v.contiguous.filter _, _) ↔ ∃ m ∈ v.contiguous, _
      rw [hnil, hm]
      constructor
      · rintro ⟨m', hm', -⟩
        cases hm'
      · rintro ⟨m', hm', hva', hsize'⟩
        obtain rfl := List.mem_singleton.mp hm'
        exact absurd (by rw [← hva', ← hsize', hbase, hsize]) hr
    | _ => exact Iff.rfl

/-- The bus interface is obtained. -/
theorem referenced (h : Tidy (v, g)) (hbus : v.fields.bus = false) :
    Tidy ({ v with fields := { v.fields with bus := true }, busRefs := v.busRefs + 1 },
      g.acquire .busInterface) := by
  have hnone : v.busRefs = 0 := by
    have hrefs := h.bus
    have hrefs : v.busRefs = if v.fields.bus then 1 else 0 := hrefs
    rw [hrefs, hbus]
    rfl
  refine ⟨h.proper, h.held, h.live, h.apart, h.buffer, ?_, ?_⟩
  · show v.busRefs + 1 = 1
    omega
  · refine Books.Balanced.acquire h.balanced ?_ ?_ ?_
    · show ¬ 0 < v.busRefs
      omega
    · show 0 < v.busRefs + 1
      omega
    · intro r hr
      cases r with
      | busInterface => exact absurd rfl hr
      | _ => exact Iff.rfl

/-- The bus interface is given back. -/
theorem dereferenced (h : Tidy (v, g)) (hbus : v.fields.bus = true) :
    Tidy ({ v with fields := { v.fields with bus := false }, busRefs := v.busRefs - 1 },
      g.release v .busInterface) := by
  have hone : v.busRefs = 1 := by
    have hrefs : v.busRefs = if v.fields.bus then 1 else 0 := h.bus
    rw [hrefs, hbus]
    rfl
  have hlive : v.Live .busInterface := by
    show 0 < v.busRefs
    omega
  refine ⟨⟨h.proper, hlive⟩, h.held, h.live, h.apart, h.buffer, ?_, ?_⟩
  · show v.busRefs - 1 = 0
    omega
  · refine Books.Balanced.release h.balanced hlive ?_ ?_
    · show ¬ 0 < v.busRefs - 1
      omega
    · intro r hr
      cases r with
      | busInterface => exact absurd rfl hr
      | _ => exact Iff.rfl

end Tidy

/-! ## The hardware callbacks, operation by operation -/

theorem Holdings.setPtr_eq_self {h : Holdings} {b : RegBlock} {p : IoPtr} (hb : h.ptr b = p) :
    h.setPtr b p = h := by
  unfold setPtr
  rw [← hb, Function.update_eq_self]

theorem inventory_eq {y : World × Books} {v : Stock} {g : Books} (hs : y.1.stock = v) (hg : y.2 = g) :
    inventory y = (v, g) := Prod.ext hs hg

/-- The hardware thread does nothing improper from an inventory on, and returns as stated. -/
abbrev Minds {α : Type} (p : Drv α) (Q : α → Stock × Books → Prop) (v : Stock × Books) : Prop :=
  Sole (driverMachine.observe bookkeeper) .hardware inventory (fun v => v.2.proper) p Q v

section Rules

variable {α : Type} {Q : α → Stock × Books → Prop} {v : Stock} {g : Books}

theorem minds_spares {p : Drv α} (hp : p.Only Op.SparesStock) (hg : g.proper) :
    Minds p (fun _ v' => v' = (v, g)) (v, g) :=
  Sole.of_only hp (fun ho he => ho.inventory he) hg

theorem minds_load {k : DeviceContext → Drv α} (hg : g.proper)
    (hk : ∀ c : DeviceContext, c.holdings = v.fields → Minds (k c) Q (v, g)) :
    Minds (.vis .load k) Q (v, g) := by
  intro e c x y hx he
  have hsame : inventory y = (v, g) := (Op.SparesStock.inventory (o := .load) trivial he).trans hx
  obtain ⟨w₁, hs, -⟩ := World.exec_step (watched_exec he).1
  obtain ⟨rfl, -⟩ := Prod.mk.inj (Option.some.inj hs)
  rw [hsame]
  exact ⟨hg, hk _ (congrArg (fun v => v.1.fields) hx)⟩

theorem minds_store {f : DeviceContext → DeviceContext} {k : Unit → Drv α} {F : Holdings → Holdings}
    (hf : ∀ c, (f c).holdings = F c.holdings) (hg : g.proper) (hr : v.Retains (F v.fields))
    (hk : Minds (k ()) Q ({ v with fields := F v.fields }, g)) : Minds (.vis (.store f) k) Q (v, g) := by
  intro e u x y hx he
  obtain ⟨hexec, -, hnote⟩ := watched_exec he
  obtain ⟨rfl, rfl⟩ := Prod.mk.inj hx
  have hstock : y.1.stock = { x.1.stock with fields := F x.1.stock.fields } := by
    rw [exec_stock hexec id id id]
    show { x.1.stock with fields := (f x.1.ctx).holdings } = _
    rw [hf]
    rfl
  have hbooks : y.2 = x.2 := by
    rw [hnote]
    refine Books.require_true ?_
    rw [hf]
    exact hr
  rw [inventory_eq hstock hbooks]
  exact ⟨hg, hk⟩

theorem minds_map {phys : UInt64} {len : Nat} {k : IoPtr → Drv α} (hg : g.proper)
    (hsome : ∀ base, (∀ m ∈ v.maps, m.base ≠ base) → Minds (k (some base)) Q
      ({ v with maps := ⟨base, phys, len⟩ :: v.maps }, g.acquire (.mapping base len)))
    (hnone : Minds (k none) Q (v, g)) : Minds (.vis (.mapIoSpace phys len) k) Q (v, g) := by
  intro e p x y hx he
  obtain ⟨hexec, -, hnote⟩ := watched_exec he
  obtain ⟨rfl, rfl⟩ := Prod.mk.inj hx
  rcases exec_mapIoSpace hexec with ⟨base, rfl, hfree, hstock⟩ | ⟨rfl, hstock⟩
  · rw [inventory_eq hstock hnote]
    exact ⟨hg, hsome base hfree⟩
  · rw [inventory_eq hstock hnote]
    exact ⟨hg, hnone⟩

theorem minds_unmap {a len : Nat} {k : Unit → Drv α} (hg : g.proper) (hlive : v.Live (.mapping a len))
    (hk : Minds (k ()) Q ({ v with maps := v.maps.filter fun m => !(some m.base == some a) },
      g.release v (.mapping a len))) : Minds (.vis (.unmapIoSpace (some a) len) k) Q (v, g) := by
  intro e u x y hx he
  obtain ⟨hexec, -, hnote⟩ := watched_exec he
  obtain ⟨rfl, rfl⟩ := Prod.mk.inj hx
  rw [inventory_eq (exec_unmapIoSpace hexec) hnote]
  exact ⟨⟨hg, hlive⟩, hk⟩

theorem minds_alloc {size highest : UInt64} {node : Option UInt32} {k : IoPtr → Drv α} (hg : g.proper)
    (hsome : ∀ va phys, Minds (k (some va)) Q
      ({ v with contiguous := ⟨va, phys, size⟩ :: v.contiguous }, g.acquire (.buffer va size)))
    (hnone : Minds (k none) Q (v, g)) :
    Minds (.vis (.allocContiguous size highest node) k) Q (v, g) := by
  intro e p x y hx he
  obtain ⟨hexec, -, hnote⟩ := watched_exec he
  obtain ⟨rfl, rfl⟩ := Prod.mk.inj hx
  rcases exec_allocContiguous hexec with ⟨va, phys, rfl, hstock⟩ | ⟨rfl, hstock⟩
  · rw [inventory_eq hstock hnote]
    exact ⟨hg, hsome va phys⟩
  · rw [inventory_eq hstock hnote]
    exact ⟨hg, hnone⟩

theorem minds_free {a : Nat} {size : UInt64} {k : Unit → Drv α} (hg : g.proper)
    (hlive : v.Live (.buffer a size))
    (hk : Minds (k ()) Q ({ v with contiguous := v.contiguous.filter fun m => !(some m.va == some a) },
      g.release v (.buffer a size))) : Minds (.vis (.freeContiguous (some a) size) k) Q (v, g) := by
  intro e u x y hx he
  obtain ⟨hexec, -, hnote⟩ := watched_exec he
  obtain ⟨rfl, rfl⟩ := Prod.mk.inj hx
  rw [inventory_eq (exec_freeContiguous hexec) hnote]
  exact ⟨⟨hg, hlive⟩, hk⟩

theorem minds_query {k : NtStatus → Drv α} (hg : g.proper) (hbus : v.fields.bus = false)
    (hok : ∀ status, NtStatus.ok status = true → Minds (k status) Q
      ({ v with busRefs := v.busRefs + 1 }, g.acquire .busInterface))
    (hfail : ∀ status, NtStatus.ok status = false → Minds (k status) Q (v, g)) :
    Minds (.vis .queryInterface k) Q (v, g) := by
  intro e status x y hx he
  obtain ⟨hexec, -, hnote⟩ := watched_exec he
  obtain ⟨rfl, rfl⟩ := Prod.mk.inj hx
  have hnone : x.1.ctx.busIfValid = false := hbus
  rcases exec_queryInterface hexec with ⟨hstatus, hstock⟩ | ⟨hstatus, hstock⟩
  · have hbooks : y.2 = x.2.acquire .busInterface := by
      rw [hnote]
      show (if status.ok = true then _ else x.2) = _
      rw [if_pos hstatus]
      exact Books.require_true fun hvalid => absurd hvalid (by simp [hnone])
    rw [inventory_eq hstock hbooks]
    exact ⟨hg, hok status hstatus⟩
  · have hbooks : y.2 = x.2 := by
      rw [hnote]
      show (if status.ok = true then _ else x.2) = _
      rw [if_neg (by simp [hstatus])]
    rw [inventory_eq hstock hbooks]
    exact ⟨hg, hfail status hstatus⟩

theorem minds_dereference {k : Unit → Drv α} (hg : g.proper) (hlive : v.Live .busInterface)
    (hk : Minds (k ()) Q ({ v with busRefs := v.busRefs - 1 }, g.release v .busInterface)) :
    Minds (.vis .dereferenceInterface k) Q (v, g) := by
  intro e u x y hx he
  obtain ⟨hexec, -, hnote⟩ := watched_exec he
  obtain ⟨rfl, rfl⟩ := Prod.mk.inj hx
  rw [inventory_eq (exec_dereferenceInterface hexec) hnote]
  exact ⟨⟨hg, hlive⟩, hk⟩

end Rules

/-- The books are tidy, and the fields are these. -/
structure Holds (h : Holdings) (s : Bool) (v : Stock × Books) : Prop where
  tidy : Tidy v
  fields : v.1.fields = h
  started : v.1.started = s

section Steps

variable {α : Type} {Q : α → Stock × Books → Prop} {v : Stock × Books} {h : Holdings} {s : Bool}
variable {b : RegBlock}

/-- Code that changes nothing of it. -/
theorem Holds.spares {p : Drv α} (hv : Holds h s v) (hp : p.Only Op.SparesStock) :
    Minds p (fun _ => Holds h s) v := by
  refine (minds_spares hp hv.tidy.proper).mono fun _ v' hv' => ?_
  rw [hv']
  exact hv

theorem Holds.load {k : DeviceContext → Drv α} (hv : Holds h s v)
    (hk : ∀ c : DeviceContext, c.holdings = h → Minds (k c) Q v) : Minds (.vis .load k) Q v :=
  minds_load hv.tidy.proper fun c hc => hk c (hc.trans hv.fields)

/-- The pointer of a block that has none is set to a mapping just made, or stays empty. -/
theorem Holds.map {phys : UInt64} {set : IoPtr → DeviceContext → DeviceContext}
    {k : IoPtr → Unit → Drv α} (hv : Holds h s v) (hb : h.ptr b = none)
    (hset : ∀ p c, (set p c).holdings = c.holdings.setPtr b p)
    (hk : ∀ p v', Holds (h.setPtr b p) s v' → Minds (k p ()) Q v') :
    Minds (.vis (.mapIoSpace phys b.len) fun p => .vis (.store (set p)) (k p)) Q v := by
  obtain ⟨v, g⟩ := v
  obtain ⟨htidy, rfl, rfl⟩ := hv
  have hempty : v.fields.ptr b = none := hb
  refine minds_map htidy.proper (fun base hfree => ?_) ?_
  · refine minds_store (F := fun h => h.setPtr b (some base)) (hset (some base)) htidy.proper ?_ ?_
    · refine ⟨fun b' a hb' _ => ?_, fun _ hva _ => hva, fun hbus _ => hbus⟩
      have hne : b' ≠ b := by
        rintro rfl
        cases hempty.symm.trans hb'
      exact (v.fields.setPtr_of_ne _ hne).trans hb'
    · exact hk _ _ ⟨htidy.mapped hempty hfree phys, rfl, rfl⟩
  · have hsame : v.fields.setPtr b none = v.fields := Holdings.setPtr_eq_self hempty
    refine minds_store (F := fun h => h.setPtr b none) (hset none) htidy.proper ?_ ?_
    · rw [hsame]
      exact v.retains_self
    · refine hk _ _ ⟨?_, rfl, rfl⟩
      rw [hsame]
      exact htidy

/-- The mapping of a block is undone, and its pointer emptied. -/
theorem Holds.unmap {a : Nat} {clear : DeviceContext → DeviceContext} {k : Unit → Drv α}
    (hv : Holds h s v) (hb : h.ptr b = some a) (hclear : ∀ c, (clear c).holdings = c.holdings.setPtr b none)
    (hk : ∀ v', Holds (h.setPtr b none) s v' → Minds (k ()) Q v') :
    Minds (.vis (.unmapIoSpace (some a) b.len) fun _ => .vis (.store clear) k) Q v := by
  obtain ⟨v, g⟩ := v
  obtain ⟨htidy, rfl, rfl⟩ := hv
  have hheld : v.fields.ptr b = some a := hb
  have hlive : v.Live (.mapping a b.len) := htidy.live b a hheld
  refine minds_unmap htidy.proper hlive (minds_store (F := fun h => h.setPtr b none) hclear
    ⟨htidy.proper, hlive⟩ ?_ (hk _ ⟨htidy.unmapped hheld, rfl, rfl⟩))
  refine ⟨fun b' a' hb' hmap => ?_, fun _ hva _ => hva, fun hbus _ => hbus⟩
  have hne : b' ≠ b := by
    rintro rfl
    obtain rfl : a = a' := Option.some.inj (hheld.symm.trans hb')
    obtain ⟨m, hm, hbase⟩ := hmap
    have hkept := (List.mem_filter.mp hm).2
    simp [hbase] at hkept
  exact (v.fields.setPtr_of_ne none hne).trans hb'

/-- While there is no buffer its size is free to change. -/
theorem Tidy.resized {v : Stock} {g : Books} (h : Tidy (v, g)) (hva : v.fields.va = none) (size : UInt64) :
    Tidy ({ v with fields := { v.fields with size } }, g) := by
  refine ⟨h.proper, h.held, h.live, h.apart, .inl ⟨hva, ?_⟩, h.bus, h.balanced⟩
  rcases h.buffer with ⟨-, hnil⟩ | ⟨m, -, hm, -⟩
  · exact hnil
  · have hm : v.fields.va = some m.va := hm
    rw [hva] at hm
    cases hm

theorem Holds.resize {f : DeviceContext → DeviceContext} {n : UInt64} {k : Unit → Drv α}
    (hv : Holds h s v) (hva : h.va = none) (hf : ∀ c, (f c).holdings = { c.holdings with size := n })
    (hk : ∀ v', Holds { h with size := n } s v' → Minds (k ()) Q v') : Minds (.vis (.store f) k) Q v := by
  obtain ⟨v, g⟩ := v
  obtain ⟨htidy, rfl, rfl⟩ := hv
  refine minds_store (F := fun h => { h with size := n }) hf htidy.proper ?_ ?_
  · exact ⟨fun _ _ hb _ => hb, fun _ hva _ => hva, fun hbus _ => hbus⟩
  · exact hk _ ⟨htidy.resized hva n, rfl, rfl⟩

end Steps

/-! ## The hardware callbacks -/

section Callbacks

variable {v : Stock × Books} {h : Holdings} {s : Bool} {b : RegBlock}

theorem mapOptional_minds {covered : Bool} {phys : UInt64}
    {set : IoPtr → DeviceContext → DeviceContext} (hv : Holds h s v) (hb : h.ptr b = none)
    (hset : ∀ p c, (set p c).holdings = c.holdings.setPtr b p) :
    Minds (mapOptional covered phys b.len set) (fun _ v' => ∃ p, Holds (h.setPtr b p) s v') v := by
  refine Sole.ite (fun _ => ?_) fun _ => ?_
  · exact hv.map hb hset fun p _ hv' => Sole.pure ⟨p, hv'⟩
  · refine Sole.pure ⟨none, ?_⟩
    rw [Holdings.setPtr_eq_self hb]
    exact hv

/-- Whatever the field held, it is empty afterwards. -/
theorem releasePtr_minds {get : DeviceContext → IoPtr} {clear : DeviceContext → DeviceContext}
    (hv : Holds h s v) (hget : ∀ c, get c = c.holdings.ptr b)
    (hclear : ∀ c, (clear c).holdings = c.holdings.setPtr b none) :
    Minds (releasePtr get clear b.len) (fun _ => Holds (h.setPtr b none) s) v := by
  refine hv.load fun c hc => ?_
  have hptr : get c = h.ptr b := by
    rw [hget, hc]
  refine Sole.ite (fun hsome => ?_) fun hnone => ?_
  · obtain ⟨a, ha⟩ := Option.ne_none_iff_exists'.mp hsome
    rw [ha]
    exact hv.unmap (hptr.symm.trans ha) hclear fun _ hv' => Sole.pure hv'
  · refine Sole.pure ?_
    rw [Holdings.setPtr_eq_self (hptr.symm.trans (not_not.mp hnone))]
    exact hv

theorem queryBusInterface_minds (hv : Holds h s v) :
    Minds queryBusInterface (fun _ v' => ∃ bus, Holds { h with bus } s v') v := by
  refine hv.load fun c hc => ?_
  have hbus : c.busIfValid = h.bus := congrArg Holdings.bus hc
  refine Sole.ite (fun _ => Sole.pure ⟨h.bus, hv⟩) fun hnone => ?_
  have hnone : h.bus = false := by
    rw [← hbus]
    simpa using hnone
  obtain ⟨v, g⟩ := v
  obtain ⟨htidy, rfl, rfl⟩ := hv
  have hnone : v.fields.bus = false := hnone
  refine minds_query htidy.proper hnone (fun status hok => ?_) fun status hfail => ?_
  · refine Sole.ite (fun hn => by simp [hok] at hn) fun _ => ?_
    refine minds_store (F := fun h => { h with bus := true }) (fun _ => rfl) htidy.proper ?_ ?_
    · exact ⟨fun _ _ hb _ => hb, fun _ hva _ => hva, fun _ _ => rfl⟩
    · exact Sole.pure ⟨true, htidy.referenced hnone, rfl, rfl⟩
  · refine Sole.ite (fun _ => Sole.pure ⟨v.fields.bus, htidy, rfl, rfl⟩) fun hn => ?_
    simp [hfail] at hn

theorem releaseBusInterface_minds (hv : Holds h s v) :
    Minds releaseBusInterface (fun _ => Holds { h with bus := false } s) v := by
  refine hv.load fun c hc => ?_
  have hbus : c.busIfValid = h.bus := congrArg Holdings.bus hc
  refine Sole.ite (fun hheld => ?_) fun hnone => ?_
  · rw [hbus] at hheld
    obtain ⟨v, g⟩ := v
    obtain ⟨htidy, rfl, rfl⟩ := hv
    have hheld : v.fields.bus = true := hheld
    have hgone := htidy.dereferenced hheld
    refine minds_dereference htidy.proper hgone.proper.2 ?_
    refine minds_store (F := fun h => { h with bus := false }) (fun _ => rfl) hgone.proper ?_ ?_
    · refine ⟨fun _ _ hb _ => hb, fun _ hva _ => hva, fun _ hpos => ?_⟩
      have hrefs : v.busRefs - 1 = 0 := hgone.bus
      have hpos : 0 < v.busRefs - 1 := hpos
      omega
    · exact Sole.pure ⟨hgone, rfl, rfl⟩
  · have hsame : ({ h with bus := false } : Holdings) = h := by
      have hnone : h.bus = false := by
        rw [← hbus]
        simpa using hnone
      rw [← hnone]
    refine Sole.pure ?_
    rw [hsame]
    exact hv

/-- The first tier that succeeds leaves its buffer with its size. -/
theorem allocateTiers_minds (node : Option UInt32) (i : Nat) (sizes : List UInt64) (hv : Holds h s v)
    (hva : h.va = none) :
    Minds (allocateTiers node i sizes) (fun _ v' => ∃ va size, Holds { h with va, size } s v') v := by
  induction sizes generalizing i v with
  | nil => exact Sole.pure ⟨h.va, h.size, hv⟩
  | cons size sizes ih =>
    obtain ⟨v, g⟩ := v
    obtain ⟨htidy, rfl, rfl⟩ := hv
    have hva : v.fields.va = none := hva
    refine minds_alloc htidy.proper (fun va phys => ?_) ?_
    · have hgot := htidy.allocated hva (a := va) phys size
      refine minds_store (F := fun h => { h with va := some va }) (fun _ => rfl) htidy.proper ?_ ?_
      · refine ⟨fun _ _ hb _ => hb, fun a ha _ => ?_, fun hbus _ => hbus⟩
        cases hva.symm.trans ha
      show Minds (if some va ≠ none then store fun c => { c.setTier i .ok with sysmemSize := size }
        else do
          store fun c => c.setTier i .failed
          allocateTiers node (i + 1) sizes) _ _
      rw [if_pos (Option.some_ne_none va)]
      refine minds_store (F := fun h => { h with size }) (fun _ => rfl) htidy.proper ?_ ?_
      · exact ⟨fun _ _ hb _ => hb, fun _ ha _ => ha, fun hbus _ => hbus⟩
      · exact Sole.pure ⟨some va, size, hgot, rfl, rfl⟩
    · have hsame : ({ v.fields with va := none } : Holdings) = v.fields := by
        rw [← hva]
      refine minds_store (F := fun h => { h with va := none }) (fun _ => rfl) htidy.proper ?_ ?_
      · rw [hsame]
        exact v.retains_self
      show Minds (if (none : IoPtr) ≠ none then store fun c => { c.setTier i .ok with sysmemSize := size }
        else do
          store fun c => c.setTier i .failed
          allocateTiers node (i + 1) sizes) _ _
      rw [if_neg (not_not.mpr rfl), hsame]
      refine minds_store (F := id) (fun _ => rfl) htidy.proper v.retains_self ?_
      exact ih (i + 1) ⟨htidy, rfl, rfl⟩

theorem sysmemAllocate_minds (hv : Holds h s v) (hva : h.va = none) :
    Minds sysmemAllocate (fun _ v' => ∃ va size, Holds { h with va, size } s v') v := by
  refine (hv.spares (p := op .numaNode) ((within_perform _).mpr trivial)).bind fun node v hv => ?_
  refine (allocateTiers_minds node 0 sysmemTiers hv hva).bind fun _ v => ?_
  rintro ⟨va, size, hv⟩
  refine hv.load fun c hc => ?_
  refine Sole.ite (fun hnone => ?_) fun _ => ?_
  · have hnone : va = none := (congrArg Holdings.va hc).symm.trans hnone
    exact hv.resize (n := 0) hnone (fun _ => rfl) fun _ hv' => Sole.pure ⟨va, 0, hv'⟩
  · refine Sole.mono (hv.spares ?_) fun _ v' hv' => ⟨va, size, hv'⟩
    refine ⟨trivial, fun phys _ => ⟨fun _ => rfl, fun _ _ => ?_⟩⟩
    exact (within_perform _).mpr trivial

theorem freeBuffer_minds (hv : Holds h s v) :
    Minds freeBuffer (fun _ => Holds { h with va := none } s) v := by
  refine hv.load fun c hc => ?_
  have hva : c.sysmemVa = h.va := congrArg Holdings.va hc
  have hsize : c.sysmemSize = h.size := congrArg Holdings.size hc
  refine Sole.ite (fun hsome => ?_) fun hnone => ?_
  · obtain ⟨a, ha⟩ := Option.ne_none_iff_exists'.mp hsome
    rw [ha, hsize]
    obtain ⟨v, g⟩ := v
    obtain ⟨htidy, rfl, rfl⟩ := hv
    have hheld : v.fields.va = some a := hva.symm.trans ha
    have hgone := htidy.freed hheld
    refine minds_free htidy.proper hgone.proper.2 ?_
    refine minds_store (F := fun h => { h with va := none }) (fun _ => rfl) hgone.proper ?_ ?_
    · refine ⟨fun _ _ hb _ => hb, fun a' ha' hlive => ?_, fun hbus _ => hbus⟩
      obtain rfl : a = a' := Option.some.inj (hheld.symm.trans ha')
      obtain ⟨m, hm, hbase⟩ := hlive
      have hkept := (List.mem_filter.mp hm).2
      simp [hbase] at hkept
    · exact Sole.pure ⟨hgone, rfl, rfl⟩
  · have hsame : ({ h with va := none } : Holdings) = h := by
      rw [← hva.symm.trans (not_not.mp hnone)]
    refine Sole.pure ?_
    rw [hsame]
    exact hv

theorem sysmemFree_minds (hv : Holds h s v) :
    Minds sysmemFree (fun _ => Holds { h with va := none, size := 0 } s) v := by
  refine (freeBuffer_minds hv).bind fun _ v hv => ?_
  exact hv.resize (n := 0) rfl (fun _ => rfl) fun _ hv' => Sole.pure hv'

/-- What is no part of the hardware callbacks' own work. -/
theorem Holds.keep {α : Type} {Q : α → Stock × Books → Prop} {o : Op} {k : o.Ans → Drv α}
    (hv : Holds h s v) (ho : o.SparesStock) (hk : ∀ a v', Holds h s v' → Minds (k a) Q v') :
    Minds (op o >>= k) Q v :=
  Sole.bind (hv.spares (p := op o) ⟨ho, fun _ _ => trivial⟩) fun a v' hv' => hk a v' hv'

theorem recordBars_spares (ds : List ResourceDesc) : (recordBars ds).Only Op.SparesStock := by
  induction ds with
  | nil => trivial
  | cons d ds ih =>
    refine Within.ite (fun _ => ih) fun _ => ⟨trivial, fun c _ => Within.ite (fun _ => trivial) fun _ => ?_⟩
    exact ⟨fun _ => rfl, fun _ _ => ih⟩

theorem revokeAllMappings_spares : revokeAllMappings.Only Op.SparesStock :=
  ⟨trivial, fun _ _ => destroyAll_only ⟨trivial, fun _ => trivial, fun _ => trivial, fun _ => trivial,
    fun _ => trivial, fun _ _ => trivial, fun _ => trivial, fun _ => trivial, fun _ => trivial⟩ _⟩

theorem readPciIdentity_minds (hv : Holds h s v) :
    Minds readPciIdentity (fun _ v' => ∃ bus, Holds { h with bus } s v') v := by
  obtain ⟨identify, heq, honly⟩ := readPciIdentity_split
  rw [heq]
  refine (queryBusInterface_minds hv).bind fun status v => ?_
  rintro ⟨bus, hv⟩
  refine Sole.mono (hv.spares (honly (fun o ho => ?_) (fun f _ hf _ _ _ => hf) status)) ?_
  · cases o <;> trivial
  · exact fun _ v' hv' => ⟨bus, hv'⟩

/-- Every field reads as absent. -/
structure Holdings.Absent (h : Holdings) : Prop where
  ptr : ∀ b, h.ptr b = none
  va : h.va = none
  bus : h.bus = false

theorem holdings_setPtr {c c' : DeviceContext} {p : IoPtr} (hptr : ∀ b', c'.ptr b' = Function.update c.ptr b p b')
    (hva : c'.sysmemVa = c.sysmemVa) (hsize : c'.sysmemSize = c.sysmemSize)
    (hbus : c'.busIfValid = c.busIfValid) : c'.holdings = c.holdings.setPtr b p := by
  have hfun : c'.ptr = Function.update c.ptr b p := funext hptr
  show Holdings.mk c'.ptr c'.sysmemVa c'.sysmemSize c'.busIfValid = _
  rw [hfun, hva, hsize, hbus]
  rfl

/-- PrepareHardware, begun with every field empty, on each of its ways out. -/
theorem evtDevicePrepareHardware_minds (resources : List ResourceDesc) (hv : Holds h s v) (habs : h.Absent) :
    Minds (evtDevicePrepareHardware resources) (fun _ v' => ∃ h', Holds h' s v') v := by
  refine (readPciIdentity_minds hv).bind fun status v => ?_
  rintro ⟨bus, hv⟩
  refine Sole.ite (fun _ => Sole.pure ⟨_, hv⟩) fun _ => ?_
  refine hv.keep (fun _ => rfl) fun _ v hv => ?_
  refine (hv.spares (recordBars_spares resources)).bind fun _ v hv => ?_
  refine hv.load fun c hc => ?_
  refine Sole.ite (fun _ => Sole.pure ⟨_, hv⟩) fun _ => ?_
  refine hv.map (b := .tlbRegs) (habs.ptr _) (fun p c => ?_) fun p v hv => ?_
  · exact holdings_setPtr (fun b => by cases b <;> rfl) rfl rfl rfl
  refine Sole.ite (fun _ => Sole.pure ⟨_, hv⟩) fun hp => ?_
  refine hv.map (b := .kernelTlb) (habs.ptr .kernelTlb) (fun p c => ?_) fun q v hv => ?_
  · exact holdings_setPtr (fun b => by cases b <;> rfl) rfl rfl rfl
  refine Sole.ite (fun _ => ?_) fun _ => ?_
  · obtain ⟨a, rfl⟩ := Option.ne_none_iff_exists'.mp hp
    refine hv.unmap (b := .tlbRegs) rfl (fun c => ?_) fun v hv => Sole.pure ⟨_, hv⟩
    · exact holdings_setPtr (fun b => by cases b <;> rfl) rfl rfl rfl
  refine Sole.bind (mapOptional_minds (b := .arcApbAxi) hv (habs.ptr .arcApbAxi) fun p c => ?_) fun _ v => ?_
  · exact holdings_setPtr (fun b => by cases b <;> rfl) rfl rfl rfl
  rintro ⟨p₁, hv⟩
  refine Sole.bind (mapOptional_minds (b := .nocIdRegs) hv (habs.ptr .nocIdRegs) fun p c => ?_) fun _ v => ?_
  · exact holdings_setPtr (fun b => by cases b <;> rfl) rfl rfl rfl
  rintro ⟨p₂, hv⟩
  refine Sole.bind (mapOptional_minds (b := .bar2Iatu) hv (habs.ptr .bar2Iatu) fun p c => ?_) fun _ v => ?_
  · exact holdings_setPtr (fun b => by cases b <;> rfl) rfl rfl rfl
  rintro ⟨p₃, hv⟩
  refine (sysmemAllocate_minds hv habs.va).bind fun _ v => ?_
  rintro ⟨va, size, hv⟩
  exact Sole.pure ⟨_, hv⟩

/-- ReleaseHardware, whatever the fields hold. -/
theorem evtDeviceReleaseHardware_minds (hv : Holds h s v) :
    Minds evtDeviceReleaseHardware (fun _ v' => ∃ h', Holds h' s v' ∧ h'.Absent) v := by
  refine (hv.spares revokeAllMappings_spares).bind fun _ v hv => ?_
  refine hv.keep (o := .acquire .arc) trivial fun _ v hv => ?_
  refine Sole.bind (releasePtr_minds (b := .kernelTlb) hv (fun _ => rfl) fun c => ?_) fun _ v hv => ?_
  · exact holdings_setPtr (fun b => by cases b <;> rfl) rfl rfl rfl
  refine Sole.bind (releasePtr_minds (b := .arcApbAxi) hv (fun _ => rfl) fun c => ?_) fun _ v hv => ?_
  · exact holdings_setPtr (fun b => by cases b <;> rfl) rfl rfl rfl
  refine Sole.bind (releasePtr_minds (b := .bar2Iatu) hv (fun _ => rfl) fun c => ?_) fun _ v hv => ?_
  · exact holdings_setPtr (fun b => by cases b <;> rfl) rfl rfl rfl
  refine Sole.bind (releasePtr_minds (b := .nocIdRegs) hv (fun _ => rfl) fun c => ?_) fun _ v hv => ?_
  · exact holdings_setPtr (fun b => by cases b <;> rfl) rfl rfl rfl
  refine hv.keep (fun _ => rfl) fun _ v hv => ?_
  refine hv.keep (o := .release .arc) trivial fun _ v hv => ?_
  refine (sysmemFree_minds hv).bind fun _ v hv => ?_
  refine hv.keep (o := .acquire .state) trivial fun _ v hv => ?_
  refine Sole.bind (releasePtr_minds (b := .tlbRegs) hv (fun _ => rfl) fun c => ?_) fun _ v hv => ?_
  · exact holdings_setPtr (fun b => by cases b <;> rfl) rfl rfl rfl
  refine hv.keep (o := .release .state) trivial fun _ v hv => ?_
  refine (releaseBusInterface_minds hv).bind fun _ v hv => ?_
  refine hv.keep (fun _ => rfl) fun _ v hv => Sole.pure ⟨_, hv, fun b => ?_, rfl, rfl⟩
  cases b <;> rfl

end Callbacks

/-! ## Every run -/

/-- Tidy, and with nothing held before the device is prepared and once it is released. -/
def Idle (v : Stock × Books) : Prop := Tidy v ∧ (v.1.started = false → v.1.fields.Absent)

theorem Tidy.restart {v : Stock} {g : Books} (h : Tidy (v, g)) (s : Bool) : Tidy ({ v with started := s }, g) :=
  ⟨h.proper, h.held, h.live, h.apart, h.buffer, h.bus, h.balanced⟩

theorem ResetFrame.holdings {f : DeviceContext → DeviceContext} (h : ResetFrame f) (c : DeviceContext) :
    (f c).holdings = c.holdings := by
  rw [h c]
  rfl

theorem begins_spares {L : Tid → Prop} {t : Tid} {p : Drv Unit} {w w' : World} (h : Begins L t p w w')
    (ht : t ≠ .hardware) : p.Only Op.SparesStock := by
  refine begins_foot (fun _ o ho => ?_) (fun _ o ho => ?_) (fun o ho => ?_) (fun _ o ho => ?_) (fun o ho => ?_) h ht
  all_goals
    cases o with
    | store f =>
      first
        | exact ResetFrame.holdings ho
        | exact ResetFrame.holdings (ArcFrame.reset ho)
        | exact (ho : False).elim
    | _ => trivial

theorem private_stock :
    Private (driver.observe bookkeeper) .hardware inventory Op.SparesStock (fun v => v.2.proper) Idle where
  initial x hx := by
    obtain ⟨⟨buffer, hworld⟩, hbooks⟩ := hx
    have hinv : inventory x = (World.stock { buffer }, {}) := inventory_eq (by rw [hworld]) hbooks
    rw [hinv]
    refine ⟨⟨trivial, nofun, fun b a hb => ?_, fun b _ a hb => ?_, .inl ⟨rfl, rfl⟩, rfl, fun r => ⟨fun hl => ?_, fun _ => rfl⟩⟩,
      fun _ => ⟨fun b => ?_, rfl, rfl⟩⟩
    · cases b <;> cases hb
    · cases b <;> cases hb
    · cases r with
      | mapping | buffer =>
        obtain ⟨m, hm, -⟩ := hl
        cases hm
      | busInterface => exact absurd hl (Int.lt_irrefl 0)
    · cases b <;> rfl
  idle v hv := hv.1.proper
  only {L u p x y} hb ht := by
    obtain ⟨hb, hbooks⟩ := hb
    refine ⟨begins_spares hb ht, inventory_eq ?_ hbooks⟩
    generalize y.1 = w' at hb
    cases hb <;> first | rfl | exact absurd rfl ht
  leaves ho he := ho.inventory he
  call {L p x y} hb hidle := by
    obtain ⟨hb, hbooks⟩ := hb
    obtain ⟨htidy, habs⟩ := hidle
    have hstart : ∀ s, y.1.stock = { x.1.stock with started := s } →
        Holds x.1.ctx.holdings s (inventory y) := by
      intro s hstock
      rw [inventory_eq hstock hbooks]
      exact ⟨htidy.restart s, rfl, rfl⟩
    generalize hw : y.1 = w' at hb hstart
    cases hb with
    | prepare resources p hp hi hst =>
      have hv := hstart true rfl
      refine ⟨hv.tidy.proper, ?_⟩
      refine Sole.bind (evtDevicePrepareHardware_minds resources hv (habs hst)) fun _ v' h => ?_
      obtain ⟨h', hv'⟩ := h
      refine Sole.pure ⟨hv'.tidy, fun hs => ?_⟩
      cases hv'.started.symm.trans hs
    | release p hp hi =>
      have hv := hstart false rfl
      refine ⟨hv.tidy.proper, (evtDeviceReleaseHardware_minds hv).mono fun _ v' h => ?_⟩
      obtain ⟨h', hv', habs'⟩ := h
      refine ⟨hv'.tidy, fun _ => ?_⟩
      rw [hv'.fields]
      exact habs'
  ends {t x y} he := by
    obtain ⟨he, hbooks⟩ := he
    have hleave : y.1 = x.1.leave t := he
    refine inventory_eq ?_ hbooks
    rw [hleave]
    cases t <;> rfl
  env {x y} he := by
    rcases he with ⟨he, hbooks⟩ | ⟨-, n, hdrift⟩
    · refine inventory_eq ?_ hbooks
      generalize y.1 = w' at he
      cases he <;> rfl
    · cases hdrift

theorem Tidy.nothing_held {v : Stock × Books} (h : Tidy v) (habs : v.1.fields.Absent) :
    v.1.maps = [] ∧ v.1.contiguous = [] ∧ v.1.busRefs = 0 := by
  refine ⟨List.eq_nil_iff_forall_not_mem.mpr fun m hm => ?_, ?_, ?_⟩
  · obtain ⟨b, hb, -⟩ := h.held m hm
    cases (habs.ptr b).symm.trans hb
  · rcases h.buffer with ⟨-, hnil⟩ | ⟨m, -, hm, -⟩
    · exact hnil
    · cases habs.va.symm.trans hm
  · have hrefs := h.bus
    rw [habs.bus] at hrefs
    exact hrefs

/-- In every run every release was of a live resource with the size it was acquired with, and no
field was overwritten that held one. Between the callbacks what is live was acquired once more than
it was released; after ReleaseHardware nothing is live, and the fields read as absent. -/
theorem prepare_release_balanced {c : WatchedConfig Books} (hc : Reach (driver.observe bookkeeper) anyStep c) :
    c.world.2.proper ∧
    (¬ c.live .hardware → c.world.2.Balanced c.world.1.stock) ∧
    (¬ c.live .hardware → c.world.1.started = false →
      (∀ r, c.world.2.acquired r = c.world.2.released r) ∧
      c.world.1.ioMaps = [] ∧ c.world.1.contiguous = [] ∧ c.world.1.busRefs = 0 ∧
      c.world.1.ctx.holdings.Absent) := by
  have hsettled := private_stock.reach hc
  have hidle : ¬ c.live .hardware → Idle (inventory c.world) :=
    fun hdead => hsettled.idle (not_not.mp hdead)
  refine ⟨hsettled.inv, fun hdead => (hidle hdead).1.balanced, fun hdead hstopped => ?_⟩
  obtain ⟨htidy, habs⟩ := hidle hdead
  have habs : c.world.1.ctx.holdings.Absent := habs hstopped
  obtain ⟨hmaps, hcontiguous, hbus⟩ := htidy.nothing_held habs
  refine ⟨fun r => (htidy.balanced r).2 fun hlive => ?_, hmaps, hcontiguous, hbus, habs⟩
  cases r with
  | mapping =>
    obtain ⟨m, hm, -⟩ := hlive
    rw [hmaps] at hm
    cases hm
  | buffer =>
    obtain ⟨m, hm, -⟩ := hlive
    rw [hcontiguous] at hm
    cases hm
  | busInterface =>
    have hpos : 0 < (inventory c.world).1.busRefs := hlive
    rw [hbus] at hpos
    exact absurd hpos (Int.lt_irrefl 0)

/-- The kernel window cannot be mapped, and the card is released. -/
def failedCycle : List Move :=
  [.prepare [⟨.memory, 0, 0x4000000000, 0x20000000⟩, ⟨.memory, 0, 0x5000000000, 0x100000⟩] 0,
    .ops .hardware (plainOps 3 ++ [.bytes cardHeader] ++ plainOps 2 ++ [.word 1, .word 0] ++
      plainOps 7 ++ [.address 1, .unit, .fail .insufficientResources] ++ plainOps 3),
    .ends .hardware, .release 0, .ops .hardware (plainOps 17), .ends .hardware]

/-- The card arrives and is released. -/
def fullCycle : List Move :=
  cardArrives 0x10000000 ++ [.release 0, .ops .hardware (plainOps 29), .ends .hardware]

theorem prepare_release_balanced_two_cycles :
    ∃ c : WatchedConfig Books, Reach (driver.observe bookkeeper) anyStep c ∧ c.world.2.proper ∧
      c.world.2.released (.mapping 1 tlbRegsLen) = 2 ∧ c.world.2.released (.buffer 6 0x40000000) = 1 ∧
      c.world.2.released .busInterface = 2 ∧ ∀ r, c.world.2.acquired r = c.world.2.released r := by
  have hplay : (WatchedConfig.play bookkeeper (fun _ _ _ => true)
      ((failedCycle ++ fullCycle).map .driver) (idle.watched {})).any (fun c =>
        (c.pool .hardware).isNone && !c.world.1.started &&
          c.world.2.released (.mapping 1 tlbRegsLen) == 2 && c.world.2.released (.buffer 6 0x40000000) == 1 &&
          c.world.2.released .busInterface == 2) = true := by
    decide +kernel
  have hinitial : bookkeeper.initial {} {} := rfl
  obtain ⟨c, hreach, hend⟩ := WatchedConfig.exists_reach (fun _ _ _ _ => trivial) hinitial hplay
  simp only [Bool.and_eq_true, beq_iff_eq, Bool.not_eq_true', Option.isNone_iff_eq_none] at hend
  obtain ⟨⟨⟨⟨hdead, hstopped⟩, hmapping⟩, hbuffer⟩, hbus⟩ := hend
  obtain ⟨hproper, -, hcycle⟩ := prepare_release_balanced hreach
  exact ⟨c, hreach, hproper, hmapping, hbuffer, hbus, (hcycle (not_not.mpr hdead) hstopped).1⟩

end TtWind
