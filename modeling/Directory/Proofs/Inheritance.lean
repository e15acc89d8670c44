import Directory.Proofs.SubtypeTree

/-!
# Inherited rules

The rules of a type are settled when it is registered: a rule that it does not declare is the one
that its superior has at that time. `Registry.registrations` keeps what was declared for each
registered type, and `Registration.Ascending` follows the superiors of registered types upwards, to
a type that has none.

`rule?_of_ascending` says that each rule is the one that was declared first on this way, and
`exists_ascending` that there is a way up from every type, because superiors are registered before.
`rules_attemptAll` puts this together for any history of registrations. It adds that the tables of
`RegistryTables` say the same as the list of types (`Registry.ReadsAs`), after registrations that
succeed and after those that are refused.
-/

namespace Directory

/-- The kinds of rules that a type can have. -/
inductive RuleKind where
  | equality
  | ordering
  | substring
  deriving DecidableEq, Repr, Inhabited

/-- The rule of a kind, if the type has one. -/
def AttributeType.rule? (t : AttributeType) : RuleKind → Option MatchingRule
  | .equality => t.equality
  | .ordering => t.ordering
  | .substring => t.substring

/-- A registration that succeeded. -/
structure Registration where
  /-- The type as it was declared. -/
  declared : AttributeType
  /-- The type as it was registered. -/
  registered : AttributeType
  deriving DecidableEq, Repr, Inhabited

/-- The attempts that succeed, in their order. -/
def Registry.registrations (r : Registry) : List AttributeType → List Registration
  | [] => []
  | t :: ts =>
    match r.register t with
    | .ok (t', r') => ⟨t, t'⟩ :: r'.registrations ts
    | .error _ => r.registrations ts

namespace Registration

/-- The list has the superior of a registered type, the superior of that superior and so on, up to
a type that has none. -/
inductive Ascending (log : List Registration) : Registration → List Registration → Prop where
  | top {x : Registration} : x ∈ log → x.registered.superior = none → Ascending log x []
  | step {x y : Registration} {ys : List Registration} :
      x ∈ log → x.registered.superior = some y.registered.oid → Ascending log y ys →
        Ascending log x (y :: ys)

/-- The registry after these registrations. -/
def registry (log : List Registration) : Registry := ⟨log.map registered⟩

/-- Each registration is what the registry was asked for when it had the types before it. -/
def Replays (log : List Registration) : Prop :=
  ∀ {before after : List Registration} {x : Registration}, log = before ++ x :: after →
    (registry before).register x.declared = .ok (x.registered, registry (before ++ [x]))

end Registration

/-! ### The log of a history -/

namespace Registry

open Registration

variable {r : Registry} {ts : List AttributeType}

/-- The log has all types that were registered. -/
theorem types_attemptAll (r : Registry) (ts : List AttributeType) :
    (r.attemptAll ts).types = r.types ++ (r.registrations ts).map registered := by
  induction ts generalizing r with
  | nil => exact (List.append_nil r.types).symm
  | cons t ts ih =>
    cases hreg : r.register t with
    | error err =>
      have hattempt : r.attempt t = r := by rw [attempt, hreg]
      rw [registrations, hreg, attemptAll, List.foldl_cons, hattempt]
      exact ih r
    | ok p =>
      obtain ⟨t', r'⟩ := p
      rw [registrations, hreg, attemptAll_cons_of_register hreg, ih r', (register_eq_ok hreg).1]
      simp

theorem register_of_registrations {before after : List Registration} {x : Registration}
    (h : r.registrations ts = before ++ x :: after) :
    Registry.register ⟨r.types ++ before.map registered⟩ x.declared =
      .ok (x.registered, ⟨r.types ++ (before ++ [x]).map registered⟩) := by
  induction ts generalizing r before with
  | nil => simp [registrations] at h
  | cons t ts ih =>
    cases hreg : r.register t with
    | error err =>
      rw [registrations, hreg] at h
      exact ih h
    | ok p =>
      obtain ⟨t', r'⟩ := p
      have htypes : r'.types = r.types ++ [t'] := (register_eq_ok hreg).1
      rw [registrations, hreg] at h
      cases before with
      | nil =>
        obtain ⟨rfl, -⟩ := List.cons.inj h
        simpa [← htypes] using hreg
      | cons y before =>
        obtain ⟨rfl, htail⟩ := List.cons.inj h
        simpa [htypes] using ih htail

theorem replays_registrations (ts : List AttributeType) : Replays (empty.registrations ts) :=
  fun h => register_of_registrations h

end Registry

/-! ### The way up -/

namespace Registration

variable {log before after ys zs : List Registration} {x y : Registration}

/-- What registration makes of the superior and the rules that a type declares. -/
theorem inherits (hlog : Replays log) (h : log = before ++ x :: after) :
    x.declared.superior = none ∧ x.registered.superior = none ∧
        (∀ k, x.registered.rule? k = x.declared.rule? k) ∨
      ∃ name, ∃ y ∈ before, x.declared.superior = some name ∧
        (registry before).resolve name = .ok y.registered ∧
        x.registered.superior = some y.registered.oid ∧
        ∀ k, x.registered.rule? k = (x.declared.rule? k).or (y.registered.rule? k) := by
  obtain ⟨-, hattach, -⟩ := Registry.register_eq_ok_iff.mp (hlog h)
  rcases Registry.attach_eq_ok_iff.mp hattach with ⟨hnone, hx⟩ | ⟨name, sup, hsome, hlookup, hx⟩
  · refine .inl ⟨hnone, ?_, fun k => ?_⟩
    · rw [hx]
      exact hnone
    · rw [hx]
      cases k <;> rfl
  · obtain ⟨y, hy, rfl⟩ := List.mem_map.mp (Registry.mem_of_lookup? hlookup)
    have hresolve := Registry.resolve_eq_ok_iff_lookup?.mpr hlookup
    refine .inr ⟨name, y, hy, hsome, hresolve, ?_, fun k => ?_⟩
    · rw [hx]
      rfl
    · rw [hx]
      cases k <;> rfl

/-- There is a way up from every registered type, since superiors are registered before. -/
theorem exists_ascending (hlog : Replays log) (h : log = before ++ x :: after) :
    ∃ ys, Ascending log x ys := by
  induction hn : before.length using Nat.strong_induction_on generalizing before x after with
  | _ n ih =>
    have hx : x ∈ log := h ▸ by simp
    rcases inherits hlog h with ⟨-, hnone, -⟩ | ⟨name, y, hy, -, -, hsup, -⟩
    · exact ⟨[], .top hx hnone⟩
    · obtain ⟨earlier, between, rfl⟩ := List.append_of_mem hy
      have hsplit : log = earlier ++ y :: (between ++ x :: after) := by rw [h]; simp
      have hless : earlier.length < n := by rw [← hn]; simp
      obtain ⟨ys, hys⟩ := ih _ hless hsplit rfl
      exact ⟨y :: ys, .step hx hsup hys⟩

theorem Ascending.mem (h : Ascending log x ys) : x ∈ log := by
  cases h with
  | top hx => exact hx
  | step hx => exact hx

theorem eq_of_oid_eq (hoids : (log.map fun x => x.registered.oid).Nodup) (hx : x ∈ log)
    (hy : y ∈ log) (hoid : x.registered.oid = y.registered.oid) : x = y :=
  List.inj_on_of_nodup_map hoids hx hy hoid

/-- There is one way up. -/
theorem Ascending.unique (hoids : (log.map fun x => x.registered.oid).Nodup)
    (h : Ascending log x ys) (h' : Ascending log x zs) : zs = ys := by
  induction h generalizing zs with
  | top _ hnone =>
    cases h' with
    | top => rfl
    | step _ hsup => exact absurd (hnone.symm.trans hsup) nofun
  | step _ hsup hys ih =>
    cases h' with
    | top _ hnone => exact absurd (hnone.symm.trans hsup) nofun
    | step _ hsup' hzs =>
      obtain rfl := eq_of_oid_eq hoids hzs.mem hys.mem (Option.some.inj (hsup'.symm.trans hsup))
      rw [ih hzs]

theorem findSome?_declared_cons (x : Registration) (ys : List Registration) (k : RuleKind) :
    (x :: ys).findSome? (fun z => z.declared.rule? k) =
      (x.declared.rule? k).or (ys.findSome? fun z => z.declared.rule? k) := by
  rw [List.findSome?_cons]
  cases x.declared.rule? k <;> rfl

/-- **Each rule is the one that was declared first on the way up.** -/
theorem rule?_of_ascending (hlog : Replays log)
    (hoids : (log.map fun x => x.registered.oid).Nodup) (h : Ascending log x ys) (k : RuleKind) :
    x.registered.rule? k = (x :: ys).findSome? fun z => z.declared.rule? k := by
  induction h with
  | @top x hx hnone =>
    obtain ⟨before, after, hsplit⟩ := List.append_of_mem hx
    rcases inherits hlog hsplit with ⟨-, -, hrules⟩ | ⟨name, y, hy, -, -, hsup, -⟩
    · rw [findSome?_declared_cons, hrules, List.findSome?_nil, Option.or_none]
    · exact absurd (hnone.symm.trans hsup) nofun
  | @step x y ys hx hsup hys ih =>
    obtain ⟨before, after, hsplit⟩ := List.append_of_mem hx
    rcases inherits hlog hsplit with ⟨-, hnone, -⟩ | ⟨name, z, hz, -, -, hsup', hrules⟩
    · exact absurd (hnone.symm.trans hsup) nofun
    · have hmem : z ∈ log := hsplit ▸ List.mem_append_left _ hz
      obtain rfl := eq_of_oid_eq hoids hmem hys.mem (Option.some.inj (hsup'.symm.trans hsup))
      rw [findSome?_declared_cons, hrules, ih]

end Registration

/-! ### Tables that say the same -/

namespace Registry

variable {r : Registry} {b b' : RegistryTables} {t t' : AttributeType}

/-- Names are looked up in the tables as in the list of types, the way through the table of subtypes
ends with the subtypes, and the order is that of the list. -/
structure ReadsAs (r : Registry) (b : RegistryTables) : Prop where
  lookup : ∀ name, b.lookup? name = r.lookup? name
  subtypes : ∀ u, ∃ n, (SubtypeWalk.start b u).run b n = ⟨[], r.subtypes u⟩
  order : b.order = r.types.map AttributeType.oid

theorem Tabulated.readsAs (hb : r.Tabulated b) (hr : r.Built) : r.ReadsAs b where
  lookup := hb.lookup?_eq
  subtypes u := ⟨_, SubtypeWalk.run_start hb hr u⟩
  order := hb.order

/-- A registration that succeeds in the tables succeeds on the list. -/
theorem Tabulated.of_runOn_register_ok (hb : r.Tabulated b)
    (h : (TableEdit.register t).runOn b = (.ok t', b')) :
    r.register t = .ok (t', ⟨r.types ++ [t']⟩) ∧ Tabulated ⟨r.types ++ [t']⟩ b' := by
  have hrun := TableEdit.runOn_register hb (t := t)
  cases hreg : r.register t with
  | error err =>
    rw [hreg, h] at hrun
    cases hrun
  | ok p =>
    obtain ⟨t'', r'⟩ := p
    rw [hreg, h] at hrun
    cases hrun
    obtain ⟨-, -, rfl⟩ := register_eq_ok_iff.mp hreg
    exact ⟨rfl, hb.extend (register_eq_ok hreg).2.2.2⟩

/-- A registration that fails in the tables fails on the list, and has changed nothing. -/
theorem Tabulated.of_runOn_register_error {err : SchemaError} (hb : r.Tabulated b)
    (h : (TableEdit.register t).runOn b = (.error err, b')) :
    b' = b ∧ r.register t = .error err := by
  have hrun := TableEdit.runOn_register hb (t := t)
  cases hreg : r.register t with
  | error err' =>
    rw [hreg, h] at hrun
    cases hrun
    exact ⟨rfl, rfl⟩
  | ok p =>
    rw [hreg, h] at hrun
    cases hrun

end Registry

namespace Registration

/-! ### Histories of registrations -/

/-- **What registration settles.** Whatever types were registered or refused: the registered types
are those of the log, and superiors lead from each of them upwards in one way. Each of its rules is
the one that was declared first on this way, and absent if there is none. Its superior is the type
that the declared name stood for, among those that were registered before it. The tables say the
same of names, subtypes and the order as the list of types, also after one more registration. One
that fails leaves them as they were. -/
theorem rules_attemptAll (ts : List AttributeType) :
    let r := Registry.empty.attemptAll ts
    let log := Registry.empty.registrations ts
    let b := RegistryTables.empty.attemptAll ts
    r.types = log.map registered ∧
      (∀ x ∈ log, ∃ ys, Ascending log x ys ∧ (∀ zs, Ascending log x zs → zs = ys) ∧
        ∀ k, x.registered.rule? k = (x :: ys).findSome? fun z => z.declared.rule? k) ∧
      (∀ before x after, log = before ++ x :: after →
        (x.declared.superior = none → x.registered.superior = none) ∧
          ∀ name, x.declared.superior = some name →
            ∃ y ∈ before, (registry before).resolve name = .ok y.registered ∧
              x.registered.superior = some y.registered.oid) ∧
      r.ReadsAs b ∧
      (∀ t t' b', (TableEdit.register t).runOn b = (.ok t', b') →
        r.register t = .ok (t', ⟨r.types ++ [t']⟩) ∧ Registry.ReadsAs ⟨r.types ++ [t']⟩ b') ∧
      ∀ t err b', (TableEdit.register t).runOn b = (.error err, b') →
        b' = b ∧ r.register t = .error err ∧
          (∀ name, b'.lookup? name = r.lookup? name) ∧
          (∀ u, ∃ n, (SubtypeWalk.start b' u).run b' n = ⟨[], r.subtypes u⟩) ∧
          b'.order = r.types.map AttributeType.oid := by
  intro r log b
  have hr : r.Built := Registry.Built.empty.attemptAll ts
  have hb : r.Tabulated b := Registry.tabulated_attemptAll ts
  have hlog : Replays log := Registry.replays_registrations ts
  have htypes : r.types = log.map registered := Registry.types_attemptAll .empty ts
  have hoids : (log.map fun x => x.registered.oid).Nodup := by
    have hnodup := hr.nodup_oids
    rwa [htypes, List.map_map] at hnodup
  have hreads : r.ReadsAs b := hb.readsAs hr
  refine ⟨htypes, fun x hx => ?_, fun before x after h => ?_, hreads, fun t t' b' h => ?_,
    fun t err b' h => ?_⟩
  · obtain ⟨before, after, hsplit⟩ := List.append_of_mem hx
    obtain ⟨ys, hys⟩ := exists_ascending hlog hsplit
    exact ⟨ys, hys, fun zs hzs => hys.unique hoids hzs, rule?_of_ascending hlog hoids hys⟩
  · rcases inherits hlog h with ⟨hnone, hregistered, -⟩ | ⟨name, y, hy, hname, hres, hsup, -⟩
    · exact ⟨fun _ => hregistered, fun name hname => absurd (hnone.symm.trans hname) nofun⟩
    · refine ⟨fun hnone => absurd (hnone.symm.trans hname) nofun, fun name' hname' => ?_⟩
      obtain rfl := Option.some.inj (hname.symm.trans hname')
      exact ⟨y, hy, hres, hsup⟩
  · obtain ⟨hreg, hb'⟩ := hb.of_runOn_register_ok h
    exact ⟨hreg, hb'.readsAs (hr.register hreg)⟩
  · obtain ⟨rfl, hreg⟩ := hb.of_runOn_register_error h
    exact ⟨rfl, hreg, hreads.lookup, hreads.subtypes, hreads.order⟩

/-- The substring rule is the one of the superior, and the equality rule the one of its superior. -/
example :
    let ts : List AttributeType :=
      [{ oid := "2.5.4.41", names := ["name"], equality := some .caseIgnoreMatch,
         substring := some .caseIgnoreSubstringsMatch },
        { oid := "2.5.4.3", names := ["cn"], superior := some "Name",
          substring := some .caseExactSubstringsMatch },
        { oid := "1.9.2", names := ["cn"], superior := some "name" },
        { oid := "1.9.1", names := ["nickCn"], superior := some "CN" }]
    (Registry.empty.attemptAll ts).resolve "nickcn" =
      .ok { oid := "1.9.1", names := ["nickcn"], superior := some "2.5.4.3",
            equality := some .caseIgnoreMatch, substring := some .caseExactSubstringsMatch } := by
  decide +kernel

end Registration

end Directory
