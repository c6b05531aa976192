import TtWind.Effect.Threads

/-!
# Systems with an observer

An `Observer` watches the operations a system performs: it refuses answers it does not
agree with, notes the others, and drifts on its own. A device with registers of its own is
one, and so is a log of a run. The observed system steps like the system it watches, in
the worlds paired with what has been seen; so what is settled for the system holds for the
observed one (`Reach.forget`), and a step without operations is one of both (`Run.watched`).
-/

set_option autoImplicit false

namespace TtWind.Effect

variable {S : Sig} {T E W G : Type}

/-- What is seen of a run: how it begins, which answers agree with it, what an operation
makes of it, and the moves it makes by itself, by number. -/
structure Observer (S : Sig) (T W G : Type) where
  initial : W → G → Prop
  agrees : T → (o : S.Op) → S.Ans o → W → G → Bool := fun _ _ _ _ _ => true
  note : T → (o : S.Op) → S.Ans o → W → G → G
  drift : Nat → G → Option G := fun _ _ => none

/-- The machine, watched: the operation as it is, if the observer agrees with its answer. -/
def Machine.observe (M : Machine S T E W) (O : Observer S T W G) : Machine S T E (W × G) where
  exec t o e w :=
    match M.exec t o e w.1 with
    | none => none
    | some (x, w') => if O.agrees t o x w.1 w.2 then some (x, (w', O.note t o x w.1 w.2)) else none

/-- The system, watched. -/
def System.observe (Y : System S T E W) (O : Observer S T W G) : System S T E (W × G) where
  toMachine := Y.toMachine.observe O
  initial w := Y.initial w.1 ∧ O.initial w.1 w.2
  begins L t p w w' := Y.begins L t p w.1 w'.1 ∧ w'.2 = w.2
  ends t w w' := Y.ends t w.1 w'.1 ∧ w'.2 = w.2
  env w w' := (Y.env w.1 w'.1 ∧ w'.2 = w.2) ∨ (w'.1 = w.1 ∧ ∃ n, O.drift n w.2 = some w'.2)

@[simp] theorem System.observe_toMachine (Y : System S T E W) (O : Observer S T W G) :
    (Y.observe O).toMachine = Y.toMachine.observe O := rfl

theorem Machine.observe_exec {M : Machine S T E W} {O : Observer S T W G} {t : T} {o : S.Op}
    {e : E} {x : S.Ans o} {w w' : W × G} :
    (M.observe O).exec t o e w = some (x, w') ↔
      M.exec t o e w.1 = some (x, w'.1) ∧ O.agrees t o x w.1 w.2 = true ∧
        w'.2 = O.note t o x w.1 w.2 := by
  obtain ⟨w₂, g₂⟩ := w'
  simp only [observe]
  constructor
  · intro h
    split at h
    · cases h
    · rename_i y w₁ he
      split at h
      · rename_i hag
        simp only [Option.some.injEq, Prod.mk.injEq] at h
        obtain ⟨rfl, rfl, rfl⟩ := h
        exact ⟨he, hag, rfl⟩
      · cases h
  · rintro ⟨he, hag, rfl⟩
    simp [he, hag]

/-! ## Forgetting what was seen -/

/-- The configuration, less what was seen. -/
def Config.forget (c : Config S T (W × G)) : Config S T W := ⟨c.world.1, c.pool⟩

@[simp] theorem Config.forget_world (c : Config S T (W × G)) : c.forget.world = c.world.1 := rfl

@[simp] theorem Config.forget_pool (c : Config S T (W × G)) : c.forget.pool = c.pool := rfl

@[simp] theorem Config.forget_live (c : Config S T (W × G)) : c.forget.live = c.live := rfl

variable [DecidableEq T] {Y : System S T E W} {O : Observer S T W G}

/-- A step of the observed system is one of the system, or a drift that changes only what
is seen. -/
theorem Step.forget {allow : T → S.Op → W × G → Prop} {allow' : T → S.Op → W → Prop}
    (ha : ∀ t o w, allow t o w → allow' t o w.1) {c c' : Config S T (W × G)}
    (h : Step (Y.observe O) allow c c') : Step Y allow' c.forget c'.forget ∨ c'.forget = c.forget := by
  cases h with
  | begins hnone hb => exact .inl (.begins hnone hb.1)
  | exec hpool hallow he =>
    exact .inl (.exec hpool (ha _ _ _ hallow) (Machine.observe_exec.mp he).1)
  | ends hpool he => exact .inl (.ends hpool he.1)
  | @env w he =>
    rcases he with he | ⟨hsame, -⟩
    · exact .inl (.env he.1)
    · refine .inr ?_
      simp only [Config.forget, hsame]

/-- What the observed system reaches, the system reaches. -/
theorem Reach.forget {allow : T → S.Op → W × G → Prop} {allow' : T → S.Op → W → Prop}
    (ha : ∀ t o w, allow t o w → allow' t o w.1) {c : Config S T (W × G)}
    (h : Reach (Y.observe O) allow c) : Reach Y allow' c.forget := by
  obtain ⟨w, hw, hr⟩ := h
  induction hr with
  | refl => exact ⟨w.1, hw.1, .refl⟩
  | tail _ hs ih =>
    rcases hs.forget ha with hstep | hsame
    · exact ih.step hstep
    · exact hsame ▸ ih

/-- A configuration, with what was seen. -/
def Config.watched (c : Config S T W) (g : G) : Config S T (W × G) := ⟨(c.world, g), c.pool⟩

/-- A run without operations is seen by nobody. -/
theorem Run.watched {allow : T → S.Op → W × G → Prop} {c c' : Config S T W}
    (h : Run Y (fun _ _ _ => False) c c') (g : G) :
    Run (Y.observe O) allow (c.watched g) (c'.watched g) := by
  induction h with
  | refl => exact .refl
  | tail _ hs ih =>
    refine ih.tail ?_
    cases hs with
    | begins hnone hb => exact .begins hnone ⟨hb, rfl⟩
    | exec _ hallow _ => exact hallow.elim
    | ends hpool he => exact .ends hpool ⟨he, rfl⟩
    | env he => exact .env (.inl ⟨he, rfl⟩)

/-- An observer that agrees with everything can watch every run. -/
theorem Reach.watched {allow : T → S.Op → W → Prop} (hinitial : ∀ w, Y.initial w → ∃ g, O.initial w g)
    (hagrees : ∀ t o x w g, O.agrees t o x w g = true) {c : Config S T W} (h : Reach Y allow c) :
    ∃ g, Reach (Y.observe O) (fun t o w => allow t o w.1) (c.watched g) := by
  obtain ⟨w, hw, hr⟩ := h
  induction hr with
  | refl =>
    obtain ⟨g, hg⟩ := hinitial w hw
    exact ⟨g, (w, g), ⟨hw, hg⟩, .refl⟩
  | @tail c₁ c₂ _ hs ih =>
    obtain ⟨g, hreach⟩ := ih
    cases hs with
    | begins hnone hb => exact ⟨g, hreach.step (.begins hnone ⟨hb, rfl⟩)⟩
    | @exec t o k e x w' hpool hallow he =>
      have hexec : (Y.observe O).exec t o e (c₁.watched g).world = some (x, (w', O.note t o x c₁.world g)) :=
        Machine.observe_exec.mpr ⟨he, hagrees _ _ _ _ _, rfl⟩
      exact ⟨O.note t o x c₁.world g, hreach.step (.exec hpool hallow hexec)⟩
    | ends hpool he => exact ⟨g, hreach.step (.ends hpool ⟨he, rfl⟩)⟩
    | env he => exact ⟨g, hreach.step (.env (.inl ⟨he, rfl⟩))⟩

end TtWind.Effect
