import TtWind.Driver.Sections

/-!
# What a section can add

Two inversions, over the sections of code under StateLock: how a window can come
to have an owner, and how a record can come to be on the mapping list.
-/

set_option autoImplicit false

namespace TtWind

theorem findClearBit_some {bitmap : Nat → Bool} {i : Nat}
    (h : Section.findClearBit bitmap = some i) : i < tlb2mCount ∧ bitmap i = false := by
  have hm := List.mem_of_find?_eq_some h
  have hb := List.find?_some h
  exact ⟨List.mem_range.mp hm, by simpa using hb⟩

theorem findClearBit_none {bitmap : Nat → Bool} (h : Section.findClearBit bitmap = none) :
    ∀ i < tlb2mCount, bitmap i = true := by
  intro i hi
  have hall := List.find?_eq_none.mp h i (List.mem_range.mpr hi)
  simpa using hall

namespace Section

variable {c : DeviceContext} {s : Section}

/-- A section changes the tables and the generation, and nothing else of the context. -/
theorem run_frame (c : DeviceContext) (s : Section) : (s.run c).2 = { c with
    mappingList := (s.run c).2.mappingList
    tlbBitmap := (s.run c).2.tlbBitmap
    tlbOwner := (s.run c).2.tlbOwner
    resetGeneration := (s.run c).2.resetGeneration } := by
  cases s with
  | insertMapping m =>
    simp only [run]
    split <;> rfl
  | takeMapping fo va =>
    simp only [run]
    split <;> rfl
  | allocateTlb fo =>
    simp only [run]
    split <;> rfl
  | freeTlb fo i =>
    simp only [run]
    split
    · rfl
    · split <;> rfl
  | _ => rfl

/-- Only the fence changes the generation. -/
theorem run_generation (hs : s ≠ .fence) : (s.run c).2.resetGeneration = c.resetGeneration := by
  cases s with
  | fence => exact absurd rfl hs
  | insertMapping m =>
    simp only [run]
    split <;> rfl
  | takeMapping fo va =>
    simp only [run]
    split <;> rfl
  | allocateTlb fo =>
    simp only [run]
    split <;> rfl
  | freeTlb fo i =>
    simp only [run]
    split
    · rfl
    · split <;> rfl
  | _ => rfl

/-- A window is owned after a section by whom it was before, or was just allocated. -/
theorem owner_of_run {i : Nat} {fo : FileObject} (h : (s.run c).2.tlbOwner i = some fo) :
    c.tlbOwner i = some fo ∨ (s = .allocateTlb fo ∧ findClearBit c.tlbBitmap = some i) := by
  cases s with
  | fence =>
    simp only [run, DeviceContext.reclaimTlbs] at h
    split at h
    · cases h
    · exact .inl h
  | sweepAll =>
    simp only [run, DeviceContext.reclaimTlbs] at h
    split at h
    · cases h
    · exact .inl h
  | insertMapping m =>
    simp only [run] at h
    split at h <;> exact .inl h
  | takeMapping fo' va =>
    simp only [run] at h
    split at h <;> exact .inl h
  | sweepFile fo' =>
    simp only [run] at h
    split at h
    · cases h
    · exact .inl h
  | allocateTlb fo' =>
    simp only [run] at h
    split at h
    · exact .inl h
    · rename_i id hid
      by_cases he : i = id
      · subst he
        simp only [Function.update_self, Option.some.injEq] at h
        exact .inr ⟨by rw [h], hid⟩
      · simp only [Function.update_of_ne he] at h
        exact .inl h
  | freeTlb fo' id =>
    simp only [run] at h
    split at h
    · exact .inl h
    · split at h
      · exact .inl h
      · by_cases he : i = id
        · simp [he] at h
        · simp only [Function.update_of_ne he] at h
          exact .inl h
  | _ => exact .inl h

/-- A record listed after a section was listed before, or was just inserted; a window's
record is inserted only while its handle owns the window. -/
theorem mem_of_run {m : UserMapping} (h : m ∈ (s.run c).2.mappingList) :
    m ∈ c.mappingList ∨ s = .appendMapping m ∨
      (s = .insertMapping m ∧ (0 ≤ m.tlbId → c.tlbOwner m.tlbId.toNat = some m.fileObject)) := by
  have htail : ∀ m' : UserMapping, m ∈ (c.insertTail m').mappingList →
      m ∈ c.mappingList ∨ m = m' := by
    intro m' hm
    rcases List.mem_append.mp hm with hm | hm
    · exact .inl hm
    · exact .inr (List.mem_singleton.mp hm)
  cases s with
  | insertMapping m' =>
    simp only [run] at h
    split at h
    · exact .inl h
    · rename_i hrefused
      rcases htail m' h with hm | rfl
      · exact .inl hm
      · exact .inr (.inr ⟨rfl, fun h0 => by_contra fun hn => hrefused ⟨h0, hn⟩⟩)
  | appendMapping m' =>
    rcases htail m' h with hm | rfl
    · exact .inl hm
    · exact .inr (.inl rfl)
  | takeMapping fo va =>
    simp only [run] at h
    split at h
    · exact .inl h
    · exact .inl (List.mem_of_mem_eraseP h)
  | sweepFile fo => exact .inl (List.mem_filter.mp h).1
  | sweepAll => cases h
  | allocateTlb fo =>
    simp only [run] at h
    split at h <;> exact .inl h
  | freeTlb fo id =>
    simp only [run] at h
    split at h
    · exact .inl h
    · split at h <;> exact .inl h
  | _ => exact .inl h

end Section

end TtWind
