import Mathlib.Data.List.Basic
import Mathlib.Data.List.Forall2

/-!
# Checked computations

What it means that a computation that can fail succeeds: each of its steps does. A loop that
collects results succeeds when every element has one, and so does a loop that only checks. A
computation that changes a state as well goes on from the state that its first step leaves
(`run_bind_of_ok`). Where a loop pairs sources with results, each of them has its partner
(`exists_of_mem_left`, `exists_of_mem_right`).
-/

namespace Directory

universe u v

variable {ε : Type u} {ε' : Type u} {α β : Type v}

theorem bind_eq_ok_iff {x : Except ε α} {f : α → Except ε β} {b : β} :
    (x >>= f) = .ok b ↔ ∃ a, x = .ok a ∧ f a = .ok b := by
  cases x with
  | error err => exact ⟨fun h => (by cases h), fun ⟨_, h, _⟩ => (by cases h)⟩
  | ok a => exact ⟨fun h => ⟨a, rfl, h⟩, fun ⟨_, h, hf⟩ => by cases h; exact hf⟩

theorem mapError_eq_ok_iff {x : Except ε α} {f : ε → ε'} {a : α} :
    x.mapError f = .ok a ↔ x = .ok a := by
  cases x <;> simp [Except.mapError]

theorem map_eq_ok_iff {x : Except ε α} {f : α → β} {b : β} :
    x.map f = .ok b ↔ ∃ a, x = .ok a ∧ f a = b := by
  cases x <;> simp [Except.map]

/-- The error of a computation that fails. -/
def errorOf? : Except ε α → Option ε
  | .ok _ => none
  | .error err => some err

theorem errorOf?_eq_none_iff {x : Except ε α} : errorOf? x = none ↔ ∃ a, x = .ok a := by
  cases x <;> simp [errorOf?]

theorem errorOf?_eq_some_iff {x : Except ε α} {err : ε} :
    errorOf? x = some err ↔ x = .error err := by
  cases x <;> simp [errorOf?]

@[simp] theorem errorOf?_map (x : Except ε α) (f : α → β) : errorOf? (x.map f) = errorOf? x := by
  cases x <;> rfl

/-- A computation that can be run shows that it succeeds with a result of this kind. -/
theorem exists_eq_ok_of_decide {x : Except ε α} {p : α → Prop} [DecidablePred p]
    (h : (match x with | .ok a => decide (p a) | .error _ => false) = true) :
    ∃ a, x = .ok a ∧ p a := by
  cases x with
  | error err => cases h
  | ok a => exact ⟨a, rfl, of_decide_eq_true h⟩

theorem exists_eq_ok_of_isOk {x : Except ε α} (h : x.isOk = true) : ∃ a, x = .ok a := by
  cases x with
  | error err => cases h
  | ok a => exact ⟨a, rfl⟩

theorem mapM_cons_eq_ok_iff {f : α → Except ε β} {a : α} {as : List α} {bs : List β} :
    (a :: as).mapM f = .ok bs ↔ ∃ b bs', f a = .ok b ∧ as.mapM f = .ok bs' ∧ bs = b :: bs' := by
  rw [List.mapM_cons, bind_eq_ok_iff]
  constructor
  · rintro ⟨b, hb, h⟩
    obtain ⟨bs', hbs, h⟩ := bind_eq_ok_iff.mp h
    cases h
    exact ⟨b, bs', hb, hbs, rfl⟩
  · rintro ⟨b, bs', hb, hbs, rfl⟩
    exact ⟨b, hb, bind_eq_ok_iff.mpr ⟨bs', hbs, rfl⟩⟩

/-- A loop collects the results when every element has one. -/
theorem mapM_eq_ok {f : α → Except ε β} {g : α → β} {as : List α} (h : ∀ a ∈ as, f a = .ok (g a)) :
    as.mapM f = .ok (as.map g) := by
  induction as with
  | nil => rfl
  | cons a as ih =>
    have ha := h a (by simp)
    have has := ih fun b hb => h b (by simp [hb])
    exact mapM_cons_eq_ok_iff.mpr ⟨g a, as.map g, ha, has, rfl⟩

theorem exists_mapM_eq_ok_iff {f : α → Except ε β} {as : List α} :
    (∃ bs, as.mapM f = .ok bs) ↔ ∀ a ∈ as, ∃ b, f a = .ok b := by
  induction as with
  | nil => exact ⟨fun _ a ha => absurd ha List.not_mem_nil, fun _ => ⟨[], rfl⟩⟩
  | cons a as ih =>
    rw [List.forall_mem_cons, ← ih]
    constructor
    · rintro ⟨bs, h⟩
      obtain ⟨b, bs', hb, hbs, -⟩ := mapM_cons_eq_ok_iff.mp h
      exact ⟨⟨b, hb⟩, ⟨bs', hbs⟩⟩
    · rintro ⟨⟨b, hb⟩, ⟨bs', hbs⟩⟩
      exact ⟨b :: bs', mapM_cons_eq_ok_iff.mpr ⟨b, bs', hb, hbs, rfl⟩⟩

/-- The results can be given by one function if every element has one. -/
theorem exists_forall_eq_ok_iff [Inhabited β] {f : α → Except ε β} {as : List α} :
    (∃ g : α → β, ∀ a ∈ as, f a = .ok (g a)) ↔ ∀ a ∈ as, ∃ b, f a = .ok b := by
  constructor
  · rintro ⟨g, h⟩ a ha
    exact ⟨g a, h a ha⟩
  · intro h
    refine ⟨fun a => (f a).toOption.getD default, fun a ha => ?_⟩
    obtain ⟨b, hb⟩ := h a ha
    show f a = .ok ((f a).toOption.getD default)
    rw [hb]
    rfl

theorem mem_of_mapM {f : α → Except ε β} {as : List α} {bs : List β} (h : as.mapM f = .ok bs)
    {b : β} : b ∈ bs ↔ ∃ a ∈ as, f a = .ok b := by
  induction as generalizing bs with
  | nil =>
    cases h
    simp
  | cons a as ih =>
    obtain ⟨c, bs', hc, hbs, rfl⟩ := mapM_cons_eq_ok_iff.mp h
    simp only [List.mem_cons, ih hbs, exists_eq_or_imp, hc, Except.ok.injEq, eq_comm (a := c)]

/-- A loop that pairs each result with something known of its element. -/
theorem mapM_pair_eq_ok_iff {γ : Type v} [Inhabited β] {f : α → Except ε β} {g : ε → ε'}
    {k : α → γ} {as : List α} {ps : List (γ × β)} :
    (as.mapM fun a => do let b ← (f a).mapError g; pure (k a, b)) = .ok ps ↔
      ∃ h : α → β, (∀ a ∈ as, f a = .ok (h a)) ∧ ps = as.map fun a => (k a, h a) := by
  have hstep : ∀ a b, (do let b ← (f a).mapError g; pure (k a, b)) = Except.ok b ↔
      f a = .ok b.2 ∧ b.1 = k a := fun a b => by
    rw [bind_eq_ok_iff]
    simp only [mapError_eq_ok_iff]
    constructor
    · rintro ⟨c, hc, h⟩
      cases h
      exact ⟨hc, rfl⟩
    · rintro ⟨hb, hk⟩
      exact ⟨b.2, hb, by rw [← hk]; rfl⟩
  constructor
  · intro h
    -- the results are those of the single steps, each of which succeeded
    have hps : ps = as.map fun a => (k a, ((f a).toOption.getD default)) := by
      induction as generalizing ps with
      | nil => cases h; rfl
      | cons a as ih =>
        obtain ⟨b, bs, hb, hbs, rfl⟩ := mapM_cons_eq_ok_iff.mp h
        obtain ⟨hf, hk⟩ := (hstep a b).mp hb
        rw [List.map_cons, ← ih hbs, hf, ← hk]
        rfl
    refine ⟨fun a => (f a).toOption.getD default, fun a ha => ?_, hps⟩
    obtain ⟨b, hb⟩ := exists_mapM_eq_ok_iff.mp ⟨ps, h⟩ a ha
    show f a = .ok ((f a).toOption.getD default)
    rw [((hstep a b).mp hb).1]
    rfl
  · rintro ⟨h, hall, rfl⟩
    exact mapM_eq_ok fun a ha => (hstep a _).mpr ⟨hall a ha, rfl⟩

theorem forM_eq_ok_iff {f : α → Except ε PUnit} {as : List α} :
    as.forM f = .ok ⟨⟩ ↔ ∀ a ∈ as, f a = .ok ⟨⟩ := by
  induction as with
  | nil => exact ⟨fun _ a ha => absurd ha List.not_mem_nil, fun _ => rfl⟩
  | cons a as ih =>
    have hcons : (a :: as).forM f = (f a >>= fun _ => as.forM f) := rfl
    rw [hcons, bind_eq_ok_iff, List.forall_mem_cons, ← ih]
    exact ⟨fun ⟨_, ha, has⟩ => ⟨ha, has⟩, fun ⟨ha, has⟩ => ⟨⟨⟩, ha, has⟩⟩

/-! ### Computations that also change a state -/

section Stateful

variable {σ ε α β : Type} {x : ExceptT ε (StateM σ) β} {f : β → ExceptT ε (StateM σ) α} {s s' : σ}

/-- A computation that succeeds leaves its state to the next one. -/
theorem run_bind_of_ok {b : β} (h : x.run.run s = (.ok b, s')) :
    (x >>= f).run.run s = (f b).run.run s' := by
  have hrun : (x >>= f).run.run s =
      (ExceptT.bindCont f (x.run.run s).1).run (x.run.run s).2 := rfl
  rw [hrun, h]
  rfl

/-- A computation that fails is the last one, and leaves the state that it has reached. -/
theorem run_bind_of_error {err : ε} (h : x.run.run s = (.error err, s')) :
    (x >>= f).run.run s = (.error err, s') := by
  have hrun : (x >>= f).run.run s =
      (ExceptT.bindCont f (x.run.run s).1).run (x.run.run s).2 := rfl
  rw [hrun, h]
  rfl

/-- A loop of changes. -/
theorem run_forM_of_ok {g : σ → β → σ} {body : β → ExceptT ε (StateM σ) PUnit}
    (h : ∀ b s, (body b).run.run s = (.ok ⟨⟩, g s b)) (bs : List β) (s : σ) :
    (bs.forM body).run.run s = (.ok ⟨⟩, bs.foldl g s) := by
  induction bs generalizing s with
  | nil => rfl
  | cons b bs ih =>
    have hcons : (b :: bs).forM body = (body b >>= fun _ => bs.forM body) := rfl
    rw [hcons, run_bind_of_ok (h b s), ih, List.foldl_cons]

end Stateful

/-! ### Sources and results -/

section Pairing

variable {α : Type} {β : Type} {R : α → β → Prop} {as : List α} {bs : List β}

theorem exists_of_mem_left (h : List.Forall₂ R as bs) {a : α} (ha : a ∈ as) : ∃ b ∈ bs, R a b := by
  induction h with
  | nil => exact absurd ha List.not_mem_nil
  | cons hab _ ih =>
    rcases List.mem_cons.mp ha with rfl | ha
    · exact ⟨_, List.mem_cons_self, hab⟩
    · obtain ⟨b, hb, hab⟩ := ih ha
      exact ⟨b, List.mem_cons_of_mem _ hb, hab⟩

theorem exists_of_mem_right (h : List.Forall₂ R as bs) {b : β} (hb : b ∈ bs) : ∃ a ∈ as, R a b :=
  exists_of_mem_left (R := flip R) h.flip hb

end Pairing

end Directory
