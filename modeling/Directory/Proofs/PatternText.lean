import Directory.Filter.Pattern
import Mathlib.Data.List.Chain

/-!
# The written form of patterns

A pattern is written with a star at each place where any text can stand. As long as its components
are not empty and have no stars of their own, the text tells the pattern (`Pattern.toText_inj`). A
value that is written in the place of a pattern can be taken for one, or for the star of a presence
assertion, just if it has stars and no two of them stand side by side (`hasLoneStars_iff`).
-/

namespace Directory

variable {cs xs ys us vs : List Char}

/-- Two texts that stop at the same kind of character, which neither has before, are the same if
they are when continued. -/
theorem append_inj_of_stop {p : Char → Bool} (hxs : ∀ c ∈ xs, p c = false)
    (hys : ∀ c ∈ ys, p c = false) (hus : us.head?.any p = true) (hvs : vs.head?.any p = true)
    (h : xs ++ us = ys ++ vs) : xs = ys ∧ us = vs := by
  induction xs generalizing ys with
  | nil =>
    cases ys with
    | nil => exact ⟨rfl, h⟩
    | cons y ys =>
      rw [List.nil_append] at h
      rw [h, List.cons_append, List.head?_cons, Option.any_some, hys y List.mem_cons_self] at hus
      cases hus
  | cons x xs ih =>
    obtain ⟨hx, hxs⟩ := List.forall_mem_cons.mp hxs
    cases ys with
    | nil =>
      rw [List.nil_append] at h
      rw [← h, List.cons_append, List.head?_cons, Option.any_some, hx] at hvs
      cases hvs
    | cons y ys =>
      rw [List.cons_append, List.cons_append, List.cons.injEq] at h
      obtain ⟨rfl, hrest⟩ := ih hxs (List.forall_mem_cons.mp hys).2 h.2
      exact ⟨by rw [h.1], hrest⟩

/-! ### Stars -/

/-- The characters are not both stars. -/
def AtMostOneStar (c d : Char) : Prop := ¬(c = '*' ∧ d = '*')

instance (c d : Char) : Decidable (AtMostOneStar c d) := inferInstanceAs (Decidable (¬_))

/-- There are stars in the text, but no two of them side by side. -/
def HasLoneStars (cs : List Char) : Prop := '*' ∈ cs ∧ cs.IsChain AtMostOneStar

instance : DecidablePred HasLoneStars := fun _ => inferInstanceAs (Decidable (_ ∧ _))

theorem isChain_append_of_star_free (hxs : '*' ∉ xs) :
    (xs ++ ys).IsChain AtMostOneStar ↔ ys.IsChain AtMostOneStar := by
  induction xs with
  | nil => rfl
  | cons x xs ih =>
    obtain ⟨hx, hxs⟩ := not_or.mp (mt List.mem_cons.mpr hxs)
    rw [List.cons_append, List.isChain_cons, ih hxs]
    exact and_iff_right fun y _ hstars => hx hstars.1.symm

namespace Pattern

variable {p q : Pattern} {inner inner' : List String} {a b : Option String}

/-- The components from left to right. -/
def components (p : Pattern) : List String := p.initial.toList ++ p.any ++ p.finish.toList

/-- The component is not empty and has no stars. -/
def Solid (s : String) : Prop := s ≠ "" ∧ '*' ∉ s.toList

instance : DecidablePred Solid := fun _ => inferInstanceAs (Decidable (_ ∧ _))

/-- There are components, and they are solid. -/
structure Clear (p : Pattern) : Prop where
  nonempty : p.components ≠ []
  solid : ∀ s ∈ p.components, Solid s

theorem Clear.initial (h : p.Clear) : ∀ s ∈ p.initial, Solid s := fun s hs =>
  h.solid s (by simp [components, Option.mem_def.mp hs])

theorem Clear.any (h : p.Clear) : ∀ s ∈ p.any, Solid s := fun s hs =>
  h.solid s (by simp [components, hs])

theorem Clear.finish (h : p.Clear) : ∀ s ∈ p.finish, Solid s := fun s hs =>
  h.solid s (by simp [components, Option.mem_def.mp hs])

/-- What is written behind the first star. -/
def restText (any : List String) (finish : Option String) : List Char :=
  (any.flatMap fun s => s.toList ++ ['*']) ++ charsOf finish

theorem toText_eq (p : Pattern) :
    p.toText = charsOf p.initial ++ '*' :: restText p.any p.finish := by
  simp [toText, restText]

theorem restText_cons (s : String) (inner : List String) (finish : Option String) :
    restText (s :: inner) finish = s.toList ++ '*' :: restText inner finish := by
  simp [restText]

theorem charsOf_inj (ha : ∀ s ∈ a, Solid s) (hb : ∀ s ∈ b, Solid s)
    (h : charsOf a = charsOf b) : a = b := by
  cases a with
  | none =>
    cases b with
    | none => rfl
    | some t => exact absurd (String.toList_eq_nil_iff.mp h.symm) (hb t rfl).1
  | some s =>
    cases b with
    | none => exact absurd (String.toList_eq_nil_iff.mp h) (ha s rfl).1
    | some t => exact congrArg some (String.toList_injective h)

theorem star_not_mem_charsOf (ha : ∀ s ∈ a, Solid s) : '*' ∉ charsOf a := by
  cases a with
  | none => exact List.not_mem_nil
  | some s => exact (ha s rfl).2

/-- The first stars of two texts. -/
theorem append_star_inj (hxs : '*' ∉ xs) (hys : '*' ∉ ys)
    (h : xs ++ '*' :: us = ys ++ '*' :: vs) : xs = ys ∧ us = vs := by
  have hstop : ∀ {zs : List Char}, '*' ∉ zs → ∀ c ∈ zs, (c == '*') = false := fun hzs c hc =>
    beq_eq_false_iff_ne.mpr fun hstar => hzs (hstar ▸ hc)
  obtain ⟨hxy, huv⟩ := append_inj_of_stop (hstop hxs) (hstop hys) rfl rfl h
  exact ⟨hxy, (List.cons.inj huv).2⟩

theorem restText_inj (hinner : ∀ s ∈ inner, Solid s) (hinner' : ∀ s ∈ inner', Solid s)
    (ha : ∀ s ∈ a, Solid s) (hb : ∀ s ∈ b, Solid s)
    (h : restText inner a = restText inner' b) : inner = inner' ∧ a = b := by
  induction inner generalizing inner' with
  | nil =>
    cases inner' with
    | nil => exact ⟨rfl, charsOf_inj ha hb h⟩
    | cons t inner' =>
      have hstar : '*' ∈ restText [] a := by simp [h, restText_cons]
      exact absurd hstar (star_not_mem_charsOf ha)
  | cons s inner ih =>
    obtain ⟨hs, hinner⟩ := List.forall_mem_cons.mp hinner
    cases inner' with
    | nil =>
      have hstar : '*' ∈ restText [] b := by simp [← h, restText_cons]
      exact absurd hstar (star_not_mem_charsOf hb)
    | cons t inner' =>
      obtain ⟨ht, hinner'⟩ := List.forall_mem_cons.mp hinner'
      rw [restText_cons, restText_cons] at h
      obtain ⟨hst, hrest⟩ := append_star_inj hs.2 ht.2 h
      obtain ⟨rfl, hab⟩ := ih hinner hinner' hrest
      exact ⟨by rw [String.toList_injective hst], hab⟩

/-- Clear patterns are told apart by their texts. -/
theorem toText_inj (hp : p.Clear) (hq : q.Clear) (h : p.toText = q.toText) : p = q := by
  rw [toText_eq, toText_eq] at h
  obtain ⟨hinitial, hrest⟩ := append_star_inj (star_not_mem_charsOf hp.initial)
    (star_not_mem_charsOf hq.initial) h
  obtain ⟨hinner, hfinish⟩ := restText_inj hp.any hq.any hp.finish hq.finish hrest
  have hstart := charsOf_inj hp.initial hq.initial hinitial
  cases p
  cases q
  simp_all

/-- A star alone is no clear pattern. -/
theorem Clear.toText_ne (h : p.Clear) : p.toText ≠ ['*'] := by
  intro hstar
  rw [toText_eq] at hstar
  obtain ⟨hinitial, hrest⟩ : charsOf p.initial = [] ∧ restText p.any p.finish = [] :=
    append_star_inj (star_not_mem_charsOf h.initial) List.not_mem_nil hstar
  have hstart : p.initial = none := charsOf_inj h.initial nofun hinitial
  obtain ⟨hinner, hfinish⟩ : p.any = [] ∧ p.finish = none :=
    restText_inj h.any nofun h.finish nofun hrest
  exact h.nonempty (by simp [components, hstart, hinner, hfinish])

/-! ### Patterns in values -/

theorem solid_ofList (hne : xs ≠ []) (hxs : '*' ∉ xs) : Solid (String.ofList xs) :=
  ⟨fun hempty => hne (by simpa using hempty), by rwa [String.toList_ofList]⟩

/-- Behind a star and a solid component there may be another star. -/
theorem isChain_star_append {s : String} (hs : Solid s) (cs : List Char) :
    ('*' :: (s.toList ++ cs)).IsChain AtMostOneStar ↔ cs.IsChain AtMostOneStar := by
  obtain ⟨c, ds, hcons⟩ := List.exists_cons_of_ne_nil (mt String.toList_eq_nil_iff.mp hs.1)
  have hc : '*' ≠ c := fun h => hs.2 (hcons ▸ h ▸ List.mem_cons_self)
  rw [List.isChain_cons, isChain_append_of_star_free hs.2, hcons]
  exact and_iff_right fun y hy hstars => hc (hstars.2.symm.trans (Option.some.inj hy).symm)

/-- Behind a star that is followed by components there is no second one. -/
theorem isChain_restText (hinner : ∀ s ∈ inner, Solid s) (ha : ∀ s ∈ a, Solid s) :
    ('*' :: restText inner a).IsChain AtMostOneStar := by
  induction inner with
  | nil =>
    cases a with
    | none => exact List.isChain_singleton '*'
    | some s =>
      have hend := (isChain_star_append (ha s rfl) []).mpr List.isChain_nil
      rwa [List.append_nil] at hend
  | cons s inner ih =>
    obtain ⟨hs, hinner⟩ := List.forall_mem_cons.mp hinner
    rw [restText_cons]
    exact (isChain_star_append hs _).mpr (ih hinner)

/-- A text behind a star without two stars side by side is what is written of components. -/
theorem exists_restText (cs : List Char) (h : ('*' :: cs).IsChain AtMostOneStar) :
    ∃ inner a, (∀ s ∈ inner, Solid s) ∧ (∀ s ∈ a, Solid s) ∧ restText inner a = cs := by
  by_cases hstar : '*' ∈ cs
  · obtain ⟨xs, ys, rfl, hxs⟩ := List.eq_append_cons_of_mem hstar
    have hne : xs ≠ [] := by
      rintro rfl
      exact (List.isChain_cons_cons.mp h).1 ⟨rfl, rfl⟩
    have hrest := (isChain_append_of_star_free hxs).mp (List.isChain_cons.mp h).2
    obtain ⟨inner, a, hinner, ha, hys⟩ := exists_restText ys hrest
    refine ⟨String.ofList xs :: inner, a,
      List.forall_mem_cons.mpr ⟨solid_ofList hne hxs, hinner⟩, ha, ?_⟩
    rw [restText_cons, String.toList_ofList, hys]
  · by_cases hcs : cs = []
    · exact ⟨[], none, nofun, nofun, hcs.symm⟩
    · refine ⟨[], some (String.ofList cs), nofun, ?_, String.toList_ofList⟩
      rintro s ⟨⟩
      exact solid_ofList hcs hstar
  termination_by cs.length
  decreasing_by subst_vars; simp; omega

/-- A text around a star is the star alone or a clear pattern. -/
theorem eq_star_or_exists (hxs : '*' ∉ xs) (hinner : ∀ s ∈ inner, Solid s)
    (ha : ∀ s ∈ a, Solid s) :
    xs ++ '*' :: restText inner a = ['*'] ∨
      ∃ p : Pattern, p.Clear ∧ p.toText = xs ++ '*' :: restText inner a := by
  have hclear : ∀ p : Pattern, p.any = inner → p.finish = a →
      (∀ s ∈ p.initial, Solid s) → p.components ≠ [] → p.Clear := by
    rintro p rfl rfl hinitial hne
    refine ⟨hne, fun s hs => ?_⟩
    simp only [components, List.mem_append, Option.mem_toList] at hs
    rcases hs with (hs | hs) | hs
    · exact hinitial s hs
    · exact hinner s hs
    · exact ha s hs
  by_cases hempty : xs = []
  · subst hempty
    by_cases hne : inner = [] ∧ a = none
    · obtain ⟨rfl, rfl⟩ := hne
      exact .inl rfl
    · refine .inr ⟨⟨none, inner, a⟩, hclear _ rfl rfl nofun ?_, by rw [toText_eq]; rfl⟩
      simpa [components] using hne
  · refine .inr ⟨⟨some (String.ofList xs), inner, a⟩,
      hclear _ rfl rfl ?_ (by simp [components]), ?_⟩
    · rintro s ⟨⟩
      exact solid_ofList hempty hxs
    · rw [toText_eq]
      simp [charsOf]

end Pattern

/-- Values with stars that stand alone look like the star of a presence assertion or like a clear
pattern, and other values do not. -/
theorem hasLoneStars_iff :
    HasLoneStars cs ↔ cs = ['*'] ∨ ∃ p : Pattern, p.Clear ∧ p.toText = cs := by
  constructor
  · rintro ⟨hstar, hchain⟩
    obtain ⟨xs, ys, rfl, hxs⟩ := List.eq_append_cons_of_mem hstar
    have hrest := (isChain_append_of_star_free hxs).mp hchain
    obtain ⟨inner, a, hinner, ha, rfl⟩ := Pattern.exists_restText ys hrest
    exact Pattern.eq_star_or_exists hxs hinner ha
  · rintro (rfl | ⟨p, hp, rfl⟩)
    · exact ⟨List.mem_singleton.mpr rfl, List.isChain_singleton '*'⟩
    · rw [Pattern.toText_eq]
      have hstart := Pattern.star_not_mem_charsOf hp.initial
      refine ⟨List.mem_append_right _ List.mem_cons_self, ?_⟩
      rw [isChain_append_of_star_free hstart]
      exact Pattern.isChain_restText hp.any hp.finish

end Directory
