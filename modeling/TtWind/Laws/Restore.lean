import TtWind.Effect.Prog
import TtWind.Driver.Reset

/-!
# Restoring config space

What TtWindResetRestoreConfig writes when the bus transfers a given number of bytes of each
dword: every dword but the command register's, in order, and then that one. It is written
whether or not the others were, so decode comes on over restored BARs only when no write
before it fell short.
-/

set_option autoImplicit false

namespace TtWind

open TtWind.Effect TtWind.Effect.Prog

/-- The bus transfers `bus i` bytes of dword `i`. -/
def BusAnswers (bus : Nat → Nat) : Event → Prop
  | ⟨.setBusData off _, n⟩ => n = bus (off / 4)
  | _ => True

/-- The write of a dword of the saved image. -/
def restoreEvent (saved : Nat → UInt8) (bus : Nat → Nat) (i : Nat) : Event :=
  ⟨.setBusData (i * 4) (savedDword saved i), bus i⟩

/-- The dwords of the image, in the order they are written. -/
def restoreOrder : List Nat := (List.range (pciCfgSaveBytes / 4)).filter (· ≠ pciCfgCommand / 4) ++ [1]

theorem mem_restoreOrder {i : Nat} : i ∈ restoreOrder ↔ i < 64 := by
  simp [restoreOrder, pciCfgSaveBytes, pciCfgCommand]
  omega

section Trace

variable {saved : Nat → UInt8} {bus : Nat → Nat} {evs : List Event} {b : Bool}

theorem cfgWrite_trace {i : Nat} (h : (cfgWrite (i * 4) (savedDword saved i)).Leads evs (.pure b))
    (hbus : ∀ ev ∈ evs, BusAnswers bus ev) : evs = [restoreEvent saved bus i] ∧ b = (bus i == 4) := by
  obtain ⟨n, before, after, rfl, hwrite, hret⟩ := leads_bind.mp h
  obtain rfl := (leads_perform (S := DriverSig)).mp hwrite
  obtain ⟨rfl, rfl⟩ := leads_pure.mp hret
  have hn : n = bus (i * 4 / 4) := hbus _ (List.mem_append_right _ List.mem_cons_self)
  rw [Nat.mul_div_cancel i (by decide)] at hn
  subst hn
  exact ⟨rfl, rfl⟩

theorem restoreDwords_trace {ok : Bool} {is : List Nat}
    (h : (restoreDwords saved ok is).Leads evs (.pure b)) (hbus : ∀ ev ∈ evs, BusAnswers bus ev) :
    evs.reverse = (is.filter (· ≠ pciCfgCommand / 4)).map (restoreEvent saved bus) ∧
      b = (ok && (is.filter (· ≠ pciCfgCommand / 4)).all (bus · == 4)) := by
  induction is generalizing ok evs with
  | nil =>
    obtain ⟨rfl, rfl⟩ := leads_pure.mp h
    exact ⟨rfl, (Bool.and_true _).symm⟩
  | cons i is ih =>
    unfold restoreDwords at h
    split at h
    · rename_i hcommand
      obtain ⟨htrace, hb⟩ := ih h hbus
      rw [List.filter_cons_of_neg (by simpa using hcommand)]
      exact ⟨htrace, hb⟩
    · rename_i hother
      obtain ⟨written, before, after, rfl, hwrite, hrest⟩ := leads_bind.mp h
      obtain ⟨rfl, rfl⟩ := cfgWrite_trace hwrite fun ev hev => hbus ev (List.mem_append_right _ hev)
      obtain ⟨htrace, hb⟩ := ih hrest fun ev hev => hbus ev (List.mem_append_left _ hev)
      rw [List.filter_cons_of_pos (by simpa using hother)]
      refine ⟨?_, ?_⟩
      · rw [List.reverse_append, htrace]
        rfl
      · rw [hb, List.all_cons, Bool.and_assoc]

/-- Everything the restore does, and what it answers. -/
theorem resetRestoreConfig_trace (h : (resetRestoreConfig saved).Leads evs (.pure b))
    (hbus : ∀ ev ∈ evs, BusAnswers bus ev) :
    evs.reverse = restoreOrder.map (restoreEvent saved bus) ∧ b = restoreOrder.all (bus · == 4) := by
  obtain ⟨ok, e₁, e₂, rfl, hloop, h₁⟩ := leads_bind.mp h
  obtain ⟨htrace, rfl⟩ := restoreDwords_trace hloop fun ev hev => hbus ev (List.mem_append_right _ hev)
  obtain ⟨written, e₃, e₄, rfl, hcommand, h₂⟩ := leads_bind.mp h₁
  obtain ⟨rfl, rfl⟩ := cfgWrite_trace (i := 1) hcommand fun ev hev =>
    hbus ev (List.mem_append_left _ (List.mem_append_right _ hev))
  obtain ⟨rfl, rfl⟩ := leads_pure.mp h₂
  refine ⟨?_, ?_⟩
  · rw [List.nil_append, List.reverse_append, htrace, restoreOrder, List.map_append]
    rfl
  · rw [restoreOrder, List.all_append, Bool.true_and]
    simp

end Trace

/-! ## Such a run is possible -/

theorem cfgWrite_leads (saved : Nat → UInt8) (bus : Nat → Nat) (i : Nat) :
    (cfgWrite (i * 4) (savedDword saved i)).Leads [restoreEvent saved bus i] (.pure (bus i == 4)) :=
  leads_bind.mpr ⟨bus i, [restoreEvent saved bus i], [], rfl,
    (leads_perform (S := DriverSig)).mpr rfl, .start⟩

theorem restoreDwords_leads (saved : Nat → UInt8) (bus : Nat → Nat) (ok : Bool) (is : List Nat) :
    (restoreDwords saved ok is).Leads
      ((is.filter (· ≠ pciCfgCommand / 4)).map (restoreEvent saved bus)).reverse
      (.pure (ok && (is.filter (· ≠ pciCfgCommand / 4)).all (bus · == 4))) := by
  induction is generalizing ok with
  | nil =>
    rw [List.filter_nil, List.all_nil, Bool.and_true]
    exact .start
  | cons i is ih =>
    unfold restoreDwords
    split
    · rename_i hcommand
      rw [List.filter_cons_of_neg (by simpa using hcommand)]
      exact ih ok
    · rename_i hother
      rw [List.filter_cons_of_pos (by simpa using hother), List.map_cons, List.reverse_cons,
        List.all_cons, ← Bool.and_assoc]
      exact leads_bind.mpr ⟨_, _, _, rfl, cfgWrite_leads saved bus i, ih _⟩

theorem resetRestoreConfig_leads (saved : Nat → UInt8) (bus : Nat → Nat) :
    (resetRestoreConfig saved).Leads (restoreOrder.map (restoreEvent saved bus)).reverse
      (.pure (restoreOrder.all (bus · == 4))) := by
  rw [restoreOrder, List.map_append, List.reverse_append, List.all_append]
  refine leads_bind.mpr ⟨_, _, _, rfl, restoreDwords_leads saved bus true _, ?_⟩
  refine leads_bind.mpr ⟨_, _, [], rfl, cfgWrite_leads saved bus 1, ?_⟩
  rw [Bool.true_and]
  exact leads_pure.mpr ⟨rfl, by simp⟩

theorem restoreOrder_answers (saved : Nat → UInt8) (bus : Nat → Nat) :
    ∀ ev ∈ (restoreOrder.map (restoreEvent saved bus)).reverse, BusAnswers bus ev := by
  intro ev hev
  obtain ⟨i, -, rfl⟩ := List.mem_map.mp (List.mem_reverse.mp hev)
  show bus i = bus (i * 4 / 4)
  rw [Nat.mul_div_cancel i (by decide)]

/-! ## The device -/

/-- A config write stores the bytes transferred, where the registers are writable. -/
def configWrite (writable cfg : Nat → UInt8) (off : Nat) (data : List UInt8) (n : Nat) : Nat → UInt8 :=
  fun k => if off ≤ k ∧ k < off + n then
    (cfg k &&& ~~~writable k) ||| (data.getD (k - off) 0 &&& writable k) else cfg k

/-- Config space after a history of writes, latest first. -/
def configAfter (writable cfg : Nat → UInt8) : List Event → Nat → UInt8
  | [] => cfg
  | ⟨.setBusData off data, n⟩ :: evs => configWrite writable (configAfter writable cfg evs) off data n
  | _ :: evs => configAfter writable cfg evs

/-- What a write put in the writable bits of a byte is found there. -/
theorem masked_byte (old new mask : UInt8) : ((old &&& ~~~mask) ||| (new &&& mask)) &&& mask = new &&& mask := by
  apply UInt8.toBitVec_inj.mp
  ext i
  simp only [UInt8.toBitVec_and, UInt8.toBitVec_or, UInt8.toBitVec_not, BitVec.getElem_and,
    BitVec.getElem_or, BitVec.getElem_not]
  cases old.toBitVec[i] <;> cases new.toBitVec[i] <;> cases mask.toBitVec[i] <;> rfl

/-- A dword written in full reads as saved, whatever other dwords were written after it. -/
theorem configAfter_restored {saved writable cfg : Nat → UInt8} {bus : Nat → Nat} {is : List Nat} {k : Nat}
    (hbus : ∀ i, bus i ≤ 4) (hmem : k / 4 ∈ is) (hfull : bus (k / 4) = 4) :
    configAfter writable cfg (is.map (restoreEvent saved bus)) k &&& writable k = saved k &&& writable k := by
  induction is with
  | nil => cases hmem
  | cons i is ih =>
    have hle := hbus i
    show configWrite writable (configAfter writable cfg (is.map (restoreEvent saved bus))) (i * 4)
      (savedDword saved i) (bus i) k &&& writable k = _
    unfold configWrite
    split
    · rename_i hin
      have hbyte : (savedDword saved i).getD (k - i * 4) 0 = saved k := by
        have hk : 4 * i + (k - i * 4) = k := by omega
        have hlt : k - i * 4 < (savedDword saved i).length := by
          simp only [savedDword, List.length_map, List.length_range]
          omega
        rw [List.getD_eq_getElem?_getD, List.getElem?_eq_getElem hlt, Option.getD_some]
        simp only [savedDword, List.getElem_map, List.getElem_range, hk]
      rw [hbyte]
      exact masked_byte _ _ _
    · rename_i hout
      apply ih
      rcases List.mem_cons.mp hmem with rfl | hmem
      · omega
      · exact hmem

/-! ## The order -/

/-- The command register is written only after every other dword of the image was, in full. -/
def CommandLast (saved : Nat → UInt8) (evs : List Event) : Prop :=
  ∀ after before data n, evs = after ++ (⟨.setBusData pciCfgCommand data, n⟩ : Event) :: before →
    ∀ i < 64, i ≠ 1 → (⟨.setBusData (i * 4) (savedDword saved i), 4⟩ : Event) ∈ before

/-- What the restore of a saved image should do: decode comes back only over a restored image, the
answer says whether every write went through, and then the device holds the image. -/
structure RestoreSound (saved : Nat → UInt8) (bus : Nat → Nat) (evs : List Event) (b : Bool) : Prop where
  order : CommandLast saved evs
  answer : b = true ↔ ∀ i < 64, bus i = 4
  restored : b = true → ∀ (writable cfg : Nat → UInt8) (k : Nat), k < pciCfgSaveBytes →
    configAfter writable cfg evs k &&& writable k = saved k &&& writable k

section Order

variable {saved : Nat → UInt8} {bus : Nat → Nat}

/-- The history of a restore: the command register is the latest write. -/
theorem restoreHistory_eq : (restoreOrder.map (restoreEvent saved bus)).reverse =
    (⟨.setBusData pciCfgCommand (savedDword saved 1), bus 1⟩ : Event) ::
      (((List.range (pciCfgSaveBytes / 4)).filter (· ≠ pciCfgCommand / 4)).map (restoreEvent saved bus)).reverse := by
  rw [restoreOrder, List.map_append, List.reverse_append]
  rfl

theorem commandLast_iff :
    CommandLast saved (restoreOrder.map (restoreEvent saved bus)).reverse ↔
      ∀ i < 64, i ≠ 1 → bus i = 4 := by
  have hother : ∀ {i : Nat}, i < 64 → i ≠ 1 →
      i ∈ (List.range (pciCfgSaveBytes / 4)).filter (· ≠ pciCfgCommand / 4) := by
    intro i hi hne
    simp [pciCfgSaveBytes, pciCfgCommand]
    omega
  rw [restoreHistory_eq]
  constructor
  · intro h i hi hne
    have hmem := h [] _ _ _ rfl i hi hne
    obtain ⟨j, -, hj⟩ := List.mem_map.mp (List.mem_reverse.mp hmem)
    simp only [restoreEvent, Sigma.mk.injEq, Op.setBusData.injEq] at hj
    obtain ⟨⟨hoff, -⟩, hn⟩ := hj
    obtain rfl : j = i := by omega
    exact eq_of_heq hn
  · intro hfull after before data n heq i hi hne
    have hbefore : (restoreEvent saved bus i : Event) ∈
        (((List.range (pciCfgSaveBytes / 4)).filter (· ≠ pciCfgCommand / 4)).map
          (restoreEvent saved bus)).reverse :=
      List.mem_reverse.mpr (List.mem_map_of_mem (hother hi hne))
    rw [restoreEvent, hfull i hi hne] at hbefore
    cases after with
    | nil =>
      obtain ⟨-, rfl⟩ := List.cons.inj heq
      exact hbefore
    | cons ev after =>
      obtain ⟨-, htail⟩ := List.cons.inj heq
      have hmem : (⟨.setBusData pciCfgCommand data, n⟩ : Event) ∈ after ++ ⟨.setBusData pciCfgCommand data, n⟩ :: before :=
        List.mem_append_right _ List.mem_cons_self
      have htail : _ = after ++ ⟨.setBusData pciCfgCommand data, n⟩ :: before := htail
      rw [← htail] at hmem
      obtain ⟨j, hj, hev⟩ := List.mem_map.mp (List.mem_reverse.mp hmem)
      simp only [restoreEvent, Sigma.mk.injEq, Op.setBusData.injEq] at hev
      have hoff : j * 4 = pciCfgCommand := hev.1.1
      have hskipped : j ≠ pciCfgCommand / 4 := by simpa using (List.mem_filter.mp hj).2
      rw [← hoff, Nat.mul_div_cancel j (by decide)] at hskipped
      exact absurd rfl hskipped

end Order

/-- What the restore does is what it should, exactly when every write before the last is
transferred in full. Its answer, and what the device holds after success, are right in any case. -/
theorem restore_sound_iff {saved : Nat → UInt8} {bus : Nat → Nat} {evs : List Event} {b : Bool}
    (h : (resetRestoreConfig saved).Leads evs (.pure b)) (hbus : ∀ ev ∈ evs, BusAnswers bus ev)
    (hle : ∀ i, bus i ≤ 4) :
    (RestoreSound saved bus evs b ↔ ∀ i < 64, i ≠ 1 → bus i = 4) ∧
    (b = true ↔ ∀ i < 64, bus i = 4) ∧
    (b = true → ∀ (writable cfg : Nat → UInt8) (k : Nat), k < pciCfgSaveBytes →
      configAfter writable cfg evs k &&& writable k = saved k &&& writable k) := by
  obtain ⟨htrace, hb⟩ := resetRestoreConfig_trace h hbus
  obtain rfl : evs = (restoreOrder.map (restoreEvent saved bus)).reverse :=
    List.reverse_eq_iff.mp htrace
  have hanswer : b = true ↔ ∀ i < 64, bus i = 4 := by
    rw [hb, List.all_eq_true]
    simp only [mem_restoreOrder, beq_iff_eq]
  have hrestored : b = true → ∀ (writable cfg : Nat → UInt8) (k : Nat), k < pciCfgSaveBytes →
      configAfter writable cfg (restoreOrder.map (restoreEvent saved bus)).reverse k &&& writable k =
        saved k &&& writable k := by
    intro ht writable cfg k hk
    have hk : k / 4 < 64 := Nat.div_lt_of_lt_mul hk
    rw [← List.map_reverse]
    exact configAfter_restored hle (List.mem_reverse.mpr (mem_restoreOrder.mpr hk)) (hanswer.mp ht _ hk)
  refine ⟨?_, hanswer, hrestored⟩
  constructor
  · intro hsound
    exact commandLast_iff.mp hsound.order
  · intro hfull
    exact ⟨commandLast_iff.mpr hfull, hanswer, hrestored⟩

/-- An image of zeros, every write transferred: decode comes back over a restored image. -/
theorem restore_sound_zeros :
    ∃ evs, RestoreSound (fun _ => 0) (fun _ => 4) evs true := by
  have hleads := resetRestoreConfig_leads (fun _ => 0) (fun _ => 4)
  have hall : restoreOrder.all (fun i => (fun _ : Nat => 4) i == 4) = true := by decide
  rw [hall] at hleads
  exact ⟨_, (restore_sound_iff hleads (restoreOrder_answers _ _) fun _ => Nat.le_refl 4).1.mpr
    fun _ _ _ => rfl⟩

/-- The write of BAR 0 transfers nothing: the command register is written all the same. -/
theorem command_over_unrestored_bar :
    ∃ evs, (resetRestoreConfig fun _ => 0).Leads evs (.pure false) ∧
      (∀ ev ∈ evs, BusAnswers (fun i => if i = 4 then 0 else 4) ev) ∧
      (⟨.setBusData pciCfgCommand [0, 0, 0, 0], 4⟩ : Event) ∈ evs ∧
      ¬ CommandLast (fun _ => 0) evs := by
  have hleads := resetRestoreConfig_leads (fun _ => 0) (fun i => if i = 4 then 0 else 4)
  have hall : restoreOrder.all (fun i => (fun i : Nat => if i = 4 then 0 else 4) i == 4) = false := by decide
  rw [hall] at hleads
  refine ⟨_, hleads, restoreOrder_answers _ _, ?_, ?_⟩
  · rw [restoreHistory_eq]
    exact List.mem_cons_self
  · rw [commandLast_iff]
    intro hfull
    exact absurd (hfull 4 (by decide) (by decide)) (by decide)

end TtWind
