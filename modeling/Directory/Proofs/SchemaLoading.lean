import Directory.Proofs.Definitions
import Mathlib.Data.Set.Finite.Basic
import Mathlib.Order.WellFounded

/-!
# Loading definitions in any order

Definitions are loaded in passes. A pass registers what is ready and leaves the rest waiting
(`Lists.pass`). As long as the definitions can be loaded at all (`Loadable`), no pass fails, and
each one finds something that is ready: otherwise every definition that waits would extend another
one that waits, and these would run in a circle (`Loadable.exists_ready`).

What the types are in the end depends only on which definitions there are, and not on the order in
which they come (`ofDefinitions_iff_loadable`).
-/

namespace Directory

namespace Definition

variable {ds ds' done waiting : List Definition} {d : Definition}

/-- The definitions can be loaded: their rules are known, no two of them have an identifier in
common, and superiors are there and do not run in a circle. -/
structure Loadable (ds : List Definition) : Prop where
  rulesKnown : ∀ d ∈ ds, d.RulesKnown
  apart : ds.Pairwise Apart
  superiors : ∀ d ∈ ds, ∀ name, d.superior = some name →
    ∃ d' ∈ ds, lowercase name ∈ d'.identifiers
  acyclic : ∀ d, ¬ Relation.TransGen (Extends ds) d d

theorem Extends.mono (hsub : ds ⊆ ds') {d d' : Definition} (h : Extends ds d d') :
    Extends ds' d d' := ⟨hsub h.1, hsub h.2.1, h.2.2⟩

theorem Loadable.perm (h : Loadable ds) (hp : ds.Perm ds') : Loadable ds' where
  rulesKnown d hd := h.rulesKnown d (hp.mem_iff.mpr hd)
  apart := h.apart.perm hp Apart.symm
  superiors d hd name hname := by
    obtain ⟨d', hd', hid⟩ := h.superiors d (hp.mem_iff.mpr hd) name hname
    exact ⟨d', hp.mem_iff.mp hd', hid⟩
  acyclic d hcycle :=
    h.acyclic d (Relation.TransGen.mono (fun _ _ => Extends.mono hp.symm.subset) d d hcycle)

/-- Among definitions that wait there is one that waits for none of the others. -/
theorem Loadable.exists_ready (h : Loadable (done ++ waiting)) (hne : waiting ≠ []) :
    ∃ d ∈ waiting, ∀ name, d.superior = some name →
      ∃ d' ∈ done, lowercase name ∈ d'.identifiers := by
  let Above (d' d : {d // d ∈ waiting}) : Prop :=
    Relation.TransGen (Extends (done ++ waiting)) d.1 d'.1
  have : Finite {d // d ∈ waiting} := (List.finite_toSet waiting).to_subtype
  have : IsTrans _ Above := ⟨fun _ _ _ h h' => h'.trans h⟩
  have : Std.Irrefl Above := ⟨fun d => h.acyclic d.1⟩
  obtain ⟨first, hfirst⟩ := List.exists_mem_of_ne_nil waiting hne
  obtain ⟨⟨d, hd⟩, -, htop⟩ :=
    (Finite.wellFounded_of_trans_of_irrefl Above).has_min Set.univ ⟨⟨first, hfirst⟩, trivial⟩
  refine ⟨d, hd, fun name hname => ?_⟩
  have hd₀ : d ∈ done ++ waiting := List.mem_append_right _ hd
  obtain ⟨d', hd', hid⟩ := h.superiors d hd₀ name hname
  rcases List.mem_append.mp hd' with hdone | hwaits
  · exact ⟨d', hdone, hid⟩
  · exact absurd (.single ⟨hd₀, hd', name, hname, hid⟩) (htop ⟨d', hwaits⟩ trivial)

end Definition

namespace Registry

open Definition

variable {r r' : Registry} {ds ds' done waiting rest : List Definition} {t : AttributeType}

/-! ### One pass -/

theorem pass_cons_eq_ok_iff {d : Definition} : r.pass (d :: ds) = .ok (r', rest) ↔
    (r.admits d = true ∧ ∃ r₁, r.define d = .ok r₁ ∧ r₁.pass ds = .ok (r', rest)) ∨
      (r.admits d = false ∧ ∃ later, r.pass ds = .ok (r', later) ∧ rest = d :: later) := by
  rw [pass]
  cases r.admits d with
  | true => simp [bind_eq_ok_iff]
  | false =>
    simp only [Bool.false_eq_true, if_false, false_and, false_or, true_and, bind_eq_ok_iff]
    constructor
    · rintro ⟨⟨r₁, later⟩, hpass, h⟩
      cases h
      exact ⟨later, hpass, rfl⟩
    · rintro ⟨later, hpass, rfl⟩
      exact ⟨(r', later), hpass, rfl⟩

/-- What waits after a pass has waited before it. -/
theorem pass_sublist (h : r.pass waiting = .ok (r', rest)) : rest.Sublist waiting := by
  induction waiting generalizing r rest with
  | nil =>
    cases h
    exact .slnil
  | cons d ds ih =>
    rcases pass_cons_eq_ok_iff.mp h with ⟨-, r₁, -, hpass⟩ | ⟨-, later, hpass, rfl⟩
    · exact (ih hpass).cons d
    · exact (ih hpass).cons_cons d

/-- A pass that starts with something ready leaves less. -/
theorem pass_length_lt (h : r.pass waiting = .ok (r', rest))
    (hready : ∃ d ∈ waiting, r.admits d = true) : rest.length < waiting.length := by
  induction waiting generalizing rest with
  | nil =>
    obtain ⟨d, hd, -⟩ := hready
    exact absurd hd List.not_mem_nil
  | cons d ds ih =>
    rcases pass_cons_eq_ok_iff.mp h with ⟨-, r₁, -, hpass⟩ | ⟨hnot, later, hpass, rfl⟩
    · exact Nat.lt_succ_of_le (pass_sublist hpass).length_le
    · obtain ⟨e, he, hready⟩ := hready
      rcases List.mem_cons.mp he with rfl | he
      · rw [hready] at hnot
        cases hnot
      · exact Nat.succ_lt_succ (ih hpass ⟨e, he, hready⟩)

/-- A pass moves definitions from those that wait to those that are listed. -/
theorem Lists.pass (h : r.Lists done) (hoid : ∀ d ∈ waiting, d.HasNumericOid)
    (hpass : r.pass waiting = .ok (r', rest)) :
    ∃ done', r'.Lists done' ∧ (done' ++ rest).Perm (done ++ waiting) := by
  induction waiting generalizing r done rest with
  | nil =>
    cases hpass
    exact ⟨done, h, .refl _⟩
  | cons d ds ih =>
    obtain ⟨hd, hds⟩ := List.forall_mem_cons.mp hoid
    rcases pass_cons_eq_ok_iff.mp hpass with ⟨-, r₁, hdef, htail⟩ | ⟨-, later, htail, rfl⟩
    · obtain ⟨done', hlists, hperm⟩ := ih (h.define hd.lowercase_oid hdef) hds htail
      refine ⟨done', hlists, ?_⟩
      rwa [List.append_assoc, List.singleton_append] at hperm
    · obtain ⟨done', hlists, hperm⟩ := ih h hds htail
      exact ⟨done', hlists,
        List.perm_middle.trans ((hperm.cons d).trans List.perm_middle.symm)⟩

/-- A pass over definitions that can be loaded does not fail. -/
theorem Lists.exists_pass (h : r.Lists done)
    (hwell : ∀ d ∈ waiting, d.HasNumericOid ∧ d.RulesKnown)
    (hapart : (done ++ waiting).Pairwise Apart) : ∃ r' rest, r.pass waiting = .ok (r', rest) := by
  induction waiting generalizing r done with
  | nil => exact ⟨r, [], rfl⟩
  | cons d ds ih =>
    obtain ⟨⟨hoid, hrules⟩, hds⟩ := List.forall_mem_cons.mp hwell
    cases hready : r.admits d with
    | true =>
      have hfresh : ∀ d' ∈ done, Apart d' d := fun d' hd' =>
        (List.pairwise_append.mp hapart).2.2 d' hd' d List.mem_cons_self
      obtain ⟨r₁, hdef⟩ := h.exists_define hoid hrules hfresh hready
      rw [List.append_cons] at hapart
      obtain ⟨r', rest, hpass⟩ := ih (h.define hoid.lowercase_oid hdef) hds hapart
      exact ⟨r', rest, pass_cons_eq_ok_iff.mpr (.inl ⟨hready, r₁, hdef, hpass⟩)⟩
    | false =>
      have hsub : (done ++ ds).Sublist (done ++ d :: ds) :=
        (List.sublist_cons_self d ds).append_left done
      obtain ⟨r', later, hpass⟩ := ih h hds (hapart.sublist hsub)
      exact ⟨r', d :: later, pass_cons_eq_ok_iff.mpr (.inr ⟨hready, later, hpass, rfl⟩)⟩

/-! ### Pass after pass -/

/-- What the passes come to, if that many are enough. Passes go on until nothing waits or one has
changed nothing. -/
def defineWithin : Nat → Registry → List Definition → Option (Except SchemaError Registry)
  | _, r, [] => some (.ok r)
  | 0, _, _ :: _ => none
  | n + 1, r, d :: ds =>
    match r.pass (d :: ds) with
    | .error e => some (.error e)
    | .ok (r, rest) =>
      if rest.length = (d :: ds).length then some (.error (unresolvable rest))
      else defineWithin n r rest

/-- There are no more passes than definitions. -/
theorem defineWithin_eq {n : Nat} (h : waiting.length ≤ n) :
    defineWithin n r waiting = some (r.defineAll waiting) := by
  induction n generalizing r waiting with
  | zero =>
    obtain rfl := List.eq_nil_of_length_eq_zero (Nat.le_zero.mp h)
    rw [defineWithin, defineAll]
    rfl
  | succ n ih =>
    cases waiting with
    | nil =>
      rw [defineWithin, defineAll]
      rfl
    | cons d ds =>
      rw [defineWithin, defineAll, List.isEmpty_cons, if_neg Bool.false_ne_true]
      cases hpass : r.pass (d :: ds) with
      | error e => rfl
      | ok found =>
        obtain ⟨r', rest⟩ := found
        have hle := (pass_sublist hpass).length_le
        dsimp only
        by_cases hlt : rest.length < (d :: ds).length
        · rw [if_neg (by omega), if_pos hlt]
          exact ih (by omega)
        · rw [if_pos (by omega), if_neg hlt]

/-- The registry in the end lists all definitions, in some order. -/
theorem Lists.defineAll (h : r.Lists done) (hoid : ∀ d ∈ waiting, d.HasNumericOid)
    (hall : r.defineAll waiting = .ok r') : ∃ ds, r'.Lists ds ∧ ds.Perm (done ++ waiting) := by
  fun_induction Registry.defineAll r waiting generalizing done with
  | case1 r waiting hempty =>
    cases hall
    rw [List.isEmpty_iff.mp hempty, List.append_nil]
    exact ⟨done, h, .refl _⟩
  | case2 => cases hall
  | case3 r waiting _ r₁ rest hpass _ ih =>
    obtain ⟨done', hlists, hperm⟩ := h.pass hoid hpass
    obtain ⟨ds, hds, hall⟩ :=
      ih hlists (fun d hd => hoid d ((pass_sublist hpass).subset hd)) hall
    exact ⟨ds, hds, hall.trans hperm⟩
  | case4 => cases hall

/-- Loading definitions that can be loaded succeeds. -/
theorem Lists.exists_defineAll (h : r.Lists done) (hoid : ∀ d ∈ waiting, d.HasNumericOid)
    (hload : Loadable (done ++ waiting)) : ∃ r', r.defineAll waiting = .ok r' := by
  have hpassed : ∃ r' rest, r.pass waiting = .ok (r', rest) :=
    h.exists_pass (fun d hd => ⟨hoid d hd, hload.rulesKnown d (List.mem_append_right _ hd)⟩)
      hload.apart
  fun_induction Registry.defineAll r waiting generalizing done with
  | case1 r => exact ⟨r, rfl⟩
  | case2 r waiting _ e hfail =>
    obtain ⟨r', rest, hpass⟩ := hpassed
    rw [hpass] at hfail
    cases hfail
  | case3 r waiting _ r₁ rest hpass _ ih =>
    obtain ⟨done', hlists, hperm⟩ := h.pass hoid hpass
    have hoid' : ∀ d ∈ rest, d.HasNumericOid := fun d hd => hoid d ((pass_sublist hpass).subset hd)
    have hload' : Loadable (done' ++ rest) := hload.perm hperm.symm
    exact ih hlists hoid' hload' <| hlists.exists_pass
      (fun d hd => ⟨hoid' d hd, hload'.rulesKnown d (List.mem_append_right _ hd)⟩) hload'.apart
  | case4 r waiting hempty r₁ rest hpass hstuck =>
    -- something was ready, so that less is left
    obtain ⟨d, hd, hready⟩ := hload.exists_ready (by simpa using hempty)
    exact absurd (pass_length_lt hpass ⟨d, hd, h.admits_iff.mpr hready⟩) hstuck

/-- Definitions that a registry lists could be loaded. -/
theorem Lists.loadable (h : r.Lists ds) : Loadable ds where
  rulesKnown d hd := by
    obtain ⟨t, hden⟩ := h.exists_denotes hd
    exact hden.rulesKnown
  apart := h.apart
  superiors d hd name hname := by
    obtain ⟨t, hden⟩ := h.exists_denotes hd
    cases hden with
    | top _ _ hsup => rw [hname] at hsup; cases hsup
    | @extend _ d' _ _ _ _ _ hsup hd' hid =>
      obtain rfl := Option.some.inj (hname.symm.trans hsup)
      exact ⟨d', hd', hid⟩
  acyclic d hcycle := by
    have hwf : WellFounded fun d' d => Extends ds d d' := ⟨fun e => by
      by_cases he : e ∈ ds
      · obtain ⟨t, hden⟩ := h.exists_denotes he
        exact hden.acc h.apart
      · exact .intro e fun e' hext => absurd hext.1 he⟩
    exact hwf.transGen.irrefl.irrefl d (Relation.transGen_swap.mpr hcycle)

/-! ### The order does not matter -/

theorem Lists.mem_types_congr (h : r.Lists ds) (h' : r'.Lists ds') (hperm : ds.Perm ds') :
    t ∈ r.types ↔ t ∈ r'.types := by
  rw [h.mem_types_iff, h'.mem_types_iff]
  exact exists_congr fun d => ⟨.mono hperm.subset, .mono hperm.symm.subset⟩

/-- Look-up depends only on which types are registered. -/
theorem Built.resolve_congr (h : r.Built) (h' : r'.Built) (hmem : ∀ t, t ∈ r.types ↔ t ∈ r'.types)
    (name : String) : r.resolve name = r'.resolve name := by
  have hfind : ∀ id, r.find? id = r'.find? id := fun id => by
    ext t
    rw [h.find?_eq_some_iff, h'.find?_eq_some_iff, hmem]
  rw [resolve, resolve, lookup?, lookup?, hfind, hfind]

/-- Which types are below another depends only on which types are registered. -/
theorem Built.mem_subtypes_congr (h : r.Built) (h' : r'.Built)
    (hmem : ∀ t, t ∈ r.types ↔ t ∈ r'.types) (t u : AttributeType) :
    u ∈ r.subtypes t ↔ u ∈ r'.subtypes t := by
  have hspec : r.Specializes = r'.Specializes := by
    funext u t
    rw [Specializes, Specializes, hmem]
  rw [mem_subtypes_iff h, mem_subtypes_iff h', Below, Below, hspec]

/-- The registry of definitions lists them, in some order. -/
theorem exists_lists_of_ofDefinitions (hoid : ∀ d ∈ ds, d.HasNumericOid)
    (h : ofDefinitions ds = .ok r) : ∃ ds', r.Lists ds' ∧ ds'.Perm ds :=
  lists_empty.defineAll hoid h

theorem exists_ofDefinitions_iff (hoid : ∀ d ∈ ds, d.HasNumericOid) :
    (∃ r, ofDefinitions ds = .ok r) ↔ Loadable ds := by
  constructor
  · rintro ⟨r, h⟩
    obtain ⟨ds', hlists, hperm⟩ := exists_lists_of_ofDefinitions hoid h
    exact hlists.loadable.perm hperm
  · exact lists_empty.exists_defineAll hoid

/-- **Which definitions can be loaded, and that their order does not matter.** For definitions with
numeric OIDs, there are no more passes than definitions. Loading succeeds if the rules are known, no
identifier is used twice, and superiors are there and do not run in a circle, and only then. In any
other order it fails as well, or it succeeds as well and leads to the same types under the same
names and to the same subtypes. -/
theorem ofDefinitions_iff_loadable (hoid : ∀ d ∈ ds, d.HasNumericOid) :
    defineWithin ds.length .empty ds = some (ofDefinitions ds) ∧
      ((∃ r, ofDefinitions ds = .ok r) ↔ Loadable ds) ∧
      ∀ ds', ds.Perm ds' →
        (∃ e e', ofDefinitions ds = .error e ∧ ofDefinitions ds' = .error e') ∨
        ∃ r r', ofDefinitions ds = .ok r ∧ ofDefinitions ds' = .ok r' ∧
          (∀ name, r.resolve name = r'.resolve name) ∧
          ∀ t u, u ∈ r.subtypes t ↔ u ∈ r'.subtypes t := by
  refine ⟨defineWithin_eq (Nat.le_refl _), exists_ofDefinitions_iff hoid, fun ds' hperm => ?_⟩
  have hoid' : ∀ d ∈ ds', d.HasNumericOid := fun d hd => hoid d (hperm.mem_iff.mpr hd)
  have hiff : (∃ r, ofDefinitions ds = .ok r) ↔ ∃ r, ofDefinitions ds' = .ok r := by
    rw [exists_ofDefinitions_iff hoid, exists_ofDefinitions_iff hoid']
    exact ⟨fun h => h.perm hperm, fun h => h.perm hperm.symm⟩
  cases hr : ofDefinitions ds with
  | error e =>
    left
    cases hr' : ofDefinitions ds' with
    | error e' => exact ⟨e, e', rfl, rfl⟩
    | ok r' =>
      obtain ⟨r, hok⟩ := hiff.mpr ⟨r', hr'⟩
      rw [hr] at hok
      cases hok
  | ok r =>
    right
    obtain ⟨r', hr'⟩ := hiff.mp ⟨r, hr⟩
    obtain ⟨order, hlists, horder⟩ := exists_lists_of_ofDefinitions hoid hr
    obtain ⟨order', hlists', horder'⟩ := exists_lists_of_ofDefinitions hoid' hr'
    have hmem : ∀ t, t ∈ r.types ↔ t ∈ r'.types := fun t =>
      hlists.mem_types_congr hlists' (horder.trans (hperm.trans horder'.symm))
    exact ⟨r, r', rfl, hr', hlists.built.resolve_congr hlists'.built hmem,
      hlists.built.mem_subtypes_congr hlists'.built hmem⟩

/-- Each definition names the next one as its superior, so that there are three passes. The other
way round one pass is enough. -/
theorem ofDefinitions_iff_loadable_badges :
    let badge : Definition := { oid := "1.1", names := ["Badge"], equality := some "integerMatch" }
    let visitor : Definition :=
      { oid := "1.2", names := ["visitorBadge"], superior := some "BADGE",
        equality := some "CaseExactMatch" }
    let guest : Definition := { oid := "1.3", superior := some "visitorbadge" }
    let guestType : AttributeType :=
      { oid := "1.3", superior := some "1.2", equality := some .caseExactMatch }
    Loadable [guest, visitor, badge] ∧
      ∃ r, ofDefinitions [badge, visitor, guest] = .ok r ∧ r.resolve "1.3" = .ok guestType ∧
        guestType ∈ r.subtypes .badge := by
  intro badge visitor guest guestType
  obtain ⟨hpasses, hload, horder⟩ :=
    @ofDefinitions_iff_loadable [guest, visitor, badge] (by decide +kernel)
  have hok : ofDefinitions [guest, visitor, badge] =
      .ok ⟨[.badge, .visitorBadge, guestType]⟩ := by
    refine Option.some.inj (hpasses.symm.trans ?_)
    decide +kernel
  refine ⟨hload.mp ⟨_, hok⟩, ?_⟩
  rcases horder [badge, visitor, guest] (by decide +kernel) with
    ⟨e, -, herror, -⟩ | ⟨r, r', hr, hr', hresolve, hsubtypes⟩
  · rw [hok] at herror
    cases herror
  · obtain rfl := Except.ok.inj (hok.symm.trans hr)
    refine ⟨r', hr', ?_, ?_⟩
    · rw [← hresolve]
      decide +kernel
    · rw [← hsubtypes]
      decide +kernel

end Registry

end Directory
