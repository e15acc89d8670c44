import Directory.Value.Memo
import Mathlib.Data.List.Basic

/-!
# Values with a memory, used by many

A raw value and its copies are normalized again and again, with any normalizers, and calls may
overlap: a call looks at the memory first (`MemoValue.look`), and by the time it has a form to
remember, another call may have been faster (`MemoCall.settle`). A call that nothing interrupts is
the two steps in turn (`MemoValue.normalize_eq_settle`).

* `MemoCall.settle_eq` says what a call answers and leaves behind, whatever happened in between;
* `TrackedValue.Faithful` is preserved by every call, and gives the memory as the first form found
  among the calls so far;
* `MemoSession.run_transparent`: the memory never shows in an answer, and is always the first form.
-/

namespace Directory

/-- The form that the normalizer gives a raw value, with the normalizer, if it gives one. -/
def Normalizer.form? (nz : Normalizer) (raw : String) : Option (Normalizer × NormalValue) :=
  match nz.normalize raw with
  | .ok value => some (nz, value)
  | .error _ => none

theorem Normalizer.form?_eq_some_iff {nz : Normalizer} {raw : String}
    {form : Normalizer × NormalValue} :
    nz.form? raw = some form ↔ form.1 = nz ∧ nz.normalize raw = .ok form.2 := by
  rw [form?]
  obtain ⟨known, value⟩ := form
  cases nz.normalize raw with
  | error err => simp
  | ok value' => simp [eq_comm]

/-! ### Calls in two steps -/

/-- A call under way: its normalizer, and what it saw when it looked at the memory. -/
structure MemoCall where
  normalizer : Normalizer
  seen : Option (Normalizer × NormalValue)
  deriving DecidableEq, Repr

namespace MemoValue

/-- The call looks at the memory. -/
def look (v : MemoValue) (nz : Normalizer) : MemoCall := ⟨nz, v.memo⟩

/-- The remembered form was made by this normalizer. -/
def recalls (v : MemoValue) (nz : Normalizer) : Bool := v.memo.any fun form => form.1 = nz

/-- The value after the normalizer has been tried on it. -/
def after (v : MemoValue) (nz : Normalizer) : MemoValue :=
  { v with memo := v.memo.or (nz.form? v.raw) }

/-- What the normalizer makes of the raw value, and whether the value then has it in its memory. -/
def reading (v : MemoValue) (nz : Normalizer) : Except SchemaError Reading :=
  (nz.normalize v.raw).map fun value => ⟨value, v.recalls nz⟩

/-- What is remembered is what its normalizer makes of the raw value. -/
def Sound (v : MemoValue) : Prop := ∀ form ∈ v.memo, form.1.normalize v.raw = .ok form.2

end MemoValue

namespace MemoCall

open MemoValue (Reading)

/-- The call comes to its end. A form that it found in the memory is there to stay; if it found
none, it has its own form remembered, unless one is remembered by now. -/
def settle (c : MemoCall) (v : MemoValue) : Except SchemaError Reading × MemoValue :=
  match c.seen with
  | some (known, value) =>
    if known = c.normalizer then (.ok ⟨value, true⟩, v)
    else ((c.normalizer.normalize v.raw).map fun value => ⟨value, false⟩, v)
  | none =>
    match c.normalizer.normalize v.raw with
    | .error err => (.error err, v)
    | .ok value =>
      let (form, v) := v.remember (c.normalizer, value)
      (.ok (if form.1 = c.normalizer then ⟨form.2, true⟩ else ⟨value, false⟩), v)

/-- What the call saw is still there. -/
def Fits (c : MemoCall) (v : MemoValue) : Prop := ∀ form ∈ c.seen, form ∈ v.memo

end MemoCall

namespace MemoValue

variable {v : MemoValue} {nz : Normalizer}

/-- A call that nothing interrupts. -/
theorem normalize_eq_settle (v : MemoValue) (nz : Normalizer) :
    v.normalize nz = (v.look nz).settle v := by
  obtain ⟨raw, memo⟩ := v
  rcases memo with _ | ⟨known, value⟩
  · unfold normalize MemoCall.settle
    dsimp only [look]
    cases nz.normalize raw with
    | error err => rfl
    | ok value =>
      refine Prod.ext (congrArg Except.ok ?_) rfl
      exact (if_pos rfl).symm
  · rfl

theorem fits_look (v : MemoValue) (nz : Normalizer) : (v.look nz).Fits v := fun _ h => h

theorem mem_memo_after {form : Normalizer × NormalValue} (h : form ∈ v.memo) :
    form ∈ (v.after nz).memo := by
  rw [after, Option.mem_def.mp h]
  rfl

theorem Sound.after (h : v.Sound) (nz : Normalizer) : (v.after nz).Sound := by
  intro form hform
  rcases Option.or_eq_some_iff.mp hform with hform | ⟨-, hform⟩
  · exact h form hform
  · obtain ⟨rfl, hvalue⟩ := Normalizer.form?_eq_some_iff.mp hform
    exact hvalue

/-- Where something is remembered, nothing else will be. -/
theorem after_of_mem {form : Normalizer × NormalValue} (h : form ∈ v.memo) : v.after nz = v := by
  obtain ⟨raw, memo⟩ := v
  obtain rfl : memo = some form := h
  rfl

/-- A failure changes nothing. -/
theorem after_of_error {err : SchemaError} (h : nz.normalize v.raw = .error err) :
    v.after nz = v := by
  rw [after, Normalizer.form?, h, Option.or_none]

theorem recalls_of_mem {form : Normalizer × NormalValue} (h : form ∈ v.memo) :
    v.recalls nz = decide (form.1 = nz) := by
  rw [recalls, Option.mem_def.mp h]
  rfl

/-- Where a form is remembered, it is the answer to its own normalizer, and the raw value is
normalized for any other one. -/
theorem reading_of_mem {form : Normalizer × NormalValue} (hv : v.Sound) (h : form ∈ v.memo)
    (nz : Normalizer) :
    v.reading nz = if form.1 = nz then .ok ⟨form.2, true⟩
      else (nz.normalize v.raw).map fun value => ⟨value, false⟩ := by
  rw [reading, recalls_of_mem h]
  split
  · next hknown =>
    subst hknown
    rw [hv form h, decide_eq_true rfl]
    rfl
  · next hother => rw [decide_eq_false hother]

end MemoValue

namespace MemoCall

variable {v : MemoValue} {c : MemoCall}

/-- A call that found a form in the memory. -/
theorem settle_of_seen {nz : Normalizer} {form : Normalizer × NormalValue} (hv : v.Sound)
    (h : form ∈ v.memo) : settle ⟨nz, some form⟩ v = ((v.after nz).reading nz, v.after nz) := by
  obtain ⟨known, value⟩ := form
  rw [MemoValue.after_of_mem h, MemoValue.reading_of_mem hv h, settle]
  dsimp only
  split <;> rfl

/-- A call that found the memory empty, while it is not empty any more. -/
theorem settle_of_overtaken {nz : Normalizer} {form : Normalizer × NormalValue} (hv : v.Sound)
    (h : form ∈ v.memo) : settle ⟨nz, none⟩ v = ((v.after nz).reading nz, v.after nz) := by
  rw [MemoValue.after_of_mem h, MemoValue.reading_of_mem hv h, settle]
  cases hvalue : nz.normalize v.raw with
  | error err =>
    have hother : form.1 ≠ nz := fun hknown => by
      rw [← hknown, hv form h] at hvalue
      cases hvalue
    rw [if_neg hother]
    rfl
  | ok value =>
    simp only [MemoValue.remember, Option.mem_def.mp h]
    split <;> rfl

/-- A call that has nobody before it. -/
theorem settle_of_first {nz : Normalizer} (hv : v.Sound) (h : v.memo = none) :
    settle ⟨nz, none⟩ v = ((v.after nz).reading nz, v.after nz) := by
  rw [settle]
  cases hvalue : nz.normalize v.raw with
  | error err =>
    rw [MemoValue.after_of_error hvalue, MemoValue.reading, hvalue]
    rfl
  | ok value =>
    have hafter : v.after nz = { v with memo := some (nz, value) } := by
      rw [MemoValue.after, h, Normalizer.form?, hvalue]
      rfl
    have hknown : (nz, value) ∈ (v.after nz).memo := by rw [hafter]; rfl
    rw [MemoValue.reading_of_mem (hv.after nz) hknown, if_pos rfl, hafter]
    simp only [MemoValue.remember, h, if_true]

/-- **What a call comes to.** The answer is what the normalizer makes of the raw value, and the value
is as if the normalizer had been tried on it only now. -/
theorem settle_eq (hv : v.Sound) (hc : c.Fits v) :
    c.settle v = ((v.after c.normalizer).reading c.normalizer, v.after c.normalizer) := by
  obtain ⟨nz, _ | form⟩ := c
  · cases hmemo : v.memo with
    | some form => exact settle_of_overtaken hv hmemo
    | none => exact settle_of_first hv hmemo
  · exact settle_of_seen hv (hc form rfl)

end MemoCall

/-- A call that nothing interrupts answers what the normalizer makes of the raw value. -/
theorem MemoValue.normalize_eq {v : MemoValue} (hv : v.Sound) (nz : Normalizer) :
    v.normalize nz = ((v.after nz).reading nz, v.after nz) := by
  rw [v.normalize_eq_settle nz, MemoCall.settle_eq hv (v.fits_look nz)]
  rfl

/-! ### Values and their calls -/

/-- A value with the calls on it that have come to their end, in this order. A copy has been through
the calls of its original. -/
structure TrackedValue where
  value : MemoValue
  calls : List (Normalizer × Except SchemaError MemoValue.Reading) := []

namespace TrackedValue

/-- One more call has come to its end. -/
def finish (t : TrackedValue) (nz : Normalizer)
    (outcome : Except SchemaError MemoValue.Reading × MemoValue) : TrackedValue :=
  ⟨outcome.2, t.calls ++ [(nz, outcome.1)]⟩

/-- A copy of the value. -/
def clone (t : TrackedValue) : TrackedValue := { t with value := t.value.clone }

theorem clone_eq (t : TrackedValue) : t.clone = t := by
  rw [clone, t.value.clone_eq]

/-- The first form that a call has found. -/
def firstForm? (t : TrackedValue) (raw : String) : Option (Normalizer × NormalValue) :=
  t.calls.findSome? fun call => call.1.form? raw

/-- The value remembers the first form found for the raw value, and every call has been answered as
if there were no memory. -/
structure Faithful (raw : String) (t : TrackedValue) : Prop where
  value : t.value = ⟨raw, t.firstForm? raw⟩
  answers : ∀ call ∈ t.calls, call.2 = t.value.reading call.1

variable {raw : String} {t : TrackedValue} {nz : Normalizer}

theorem faithful_new (raw : String) : Faithful raw ⟨.new raw, []⟩ :=
  ⟨rfl, fun _ h => absurd h List.not_mem_nil⟩

theorem Faithful.sound (h : t.Faithful raw) : t.value.Sound := by
  intro form hform
  rw [h.value] at hform ⊢
  obtain ⟨call, -, hcall⟩ := List.exists_of_findSome?_eq_some (Option.mem_def.mp hform)
  obtain ⟨hknown, hvalue⟩ := Normalizer.form?_eq_some_iff.mp hcall
  rw [hknown]
  exact hvalue

/-- Something is remembered when a call has found a form. -/
theorem Faithful.isNormalized_iff (h : t.Faithful raw) :
    t.value.isNormalized = true ↔ ∃ call ∈ t.calls, ∃ value, call.1.normalize raw = .ok value := by
  rw [h.value, MemoValue.isNormalized, firstForm?, List.findSome?_isSome_iff]
  refine exists_congr fun call => and_congr_right fun _ => ?_
  rw [Option.isSome_iff_exists]
  exact ⟨fun ⟨form, hform⟩ => ⟨form.2, (Normalizer.form?_eq_some_iff.mp hform).2⟩,
    fun ⟨value, hvalue⟩ => ⟨(call.1, value), Normalizer.form?_eq_some_iff.mpr ⟨rfl, hvalue⟩⟩⟩

/-- A later call does not change how an earlier one reads. -/
theorem Faithful.reading_after (h : t.Faithful raw) (nz : Normalizer)
    {call : Normalizer × Except SchemaError MemoValue.Reading} (hcall : call ∈ t.calls) :
    (t.value.after nz).reading call.1 = t.value.reading call.1 := by
  cases hvalue : call.1.normalize t.value.raw with
  | error err =>
    have hvalue' : call.1.normalize (t.value.after nz).raw = .error err := hvalue
    rw [MemoValue.reading, MemoValue.reading, hvalue, hvalue']
    rfl
  | ok value =>
    have hraw : t.value.raw = raw := by rw [h.value]
    have hsome := h.isNormalized_iff.mpr ⟨call, hcall, value, hraw ▸ hvalue⟩
    obtain ⟨form, hform⟩ := Option.isSome_iff_exists.mp hsome
    rw [MemoValue.after_of_mem hform]

/-- One call more. -/
theorem Faithful.finish (h : t.Faithful raw)
    {outcome : Except SchemaError MemoValue.Reading × MemoValue}
    (houtcome : outcome = ((t.value.after nz).reading nz, t.value.after nz)) :
    (t.finish nz outcome).Faithful raw := by
  subst houtcome
  refine ⟨?_, fun call hcall => ?_⟩
  · show t.value.after nz = _
    rw [MemoValue.after, h.value, firstForm?, firstForm?, TrackedValue.finish,
      List.findSome?_append, List.findSome?_singleton]
  · rcases List.mem_append.mp hcall with hcall | hcall
    · rw [h.answers call hcall]
      exact (h.reading_after nz hcall).symm
    · obtain rfl := List.mem_singleton.mp hcall
      rfl

end TrackedValue

/-! ### Sessions -/

/-- What is done with a value and its copies, which are known by their places. -/
inductive MemoEvent where
  /-- A call that nothing interrupts. -/
  | normalize (place : Nat) (nz : Normalizer)
  | clone (place : Nat)
  /-- A call looks at the memory. -/
  | look (place : Nat) (nz : Normalizer)
  /-- One of the calls under way comes to its end. -/
  | settle (number : Nat)
  deriving DecidableEq, Repr

/-- A value and its copies, in the order in which they were made, and the calls under way. -/
structure MemoSession where
  values : List TrackedValue
  /-- Each call under way and the place of its value. -/
  underWay : List (Nat × MemoCall) := []

namespace MemoSession

/-- Nothing has been done yet with the raw value. -/
def opened (raw : String) : MemoSession := { values := [⟨.new raw, []⟩] }

/-- The session after an event. -/
def step (x : MemoSession) : MemoEvent → MemoSession
  | .normalize place nz =>
    { x with values := x.values.modify place fun t => t.finish nz (t.value.normalize nz) }
  | .clone place => { x with values := x.values ++ (x.values[place]?.map .clone).toList }
  | .look place nz =>
    { x with
      underWay := x.underWay ++ (x.values[place]?.map fun t => (place, t.value.look nz)).toList }
  | .settle number =>
    match x.underWay[number]? with
    | none => x
    | some (place, call) =>
      { values := x.values.modify place fun t => t.finish call.normalizer (call.settle t.value)
        underWay := x.underWay.eraseIdx number }

/-- The session after several events. -/
def run (x : MemoSession) (events : List MemoEvent) : MemoSession := events.foldl step x

/-- A value stays at its place when copies are made. -/
theorem getElem?_append_copies {values copies : List TrackedValue} {i : Nat} {t : TrackedValue}
    (h : values[i]? = some t) : (values ++ copies)[i]? = some t := by
  obtain ⟨hlt, -⟩ := List.getElem?_eq_some_iff.mp h
  rw [List.getElem?_append_left hlt, h]

theorem run_append (x : MemoSession) (events more : List MemoEvent) :
    x.run (events ++ more) = (x.run events).run more := List.foldl_append

/-- All values are faithful, and the calls under way fit them. -/
structure Faithful (raw : String) (x : MemoSession) : Prop where
  values : ∀ t ∈ x.values, t.Faithful raw
  underWay : ∀ place call, (place, call) ∈ x.underWay →
    ∃ t, x.values[place]? = some t ∧ call.Fits t.value

variable {raw : String} {x : MemoSession}

theorem faithful_opened (raw : String) : (opened raw).Faithful raw where
  values _ ht := List.mem_singleton.mp ht ▸ TrackedValue.faithful_new raw
  underWay _ _ h := absurd h List.not_mem_nil

/-- A call on the value at some place comes to its end. -/
theorem Faithful.modify (h : x.Faithful raw) {place : Nat} {nz : Normalizer}
    {f : MemoValue → Except SchemaError MemoValue.Reading × MemoValue}
    (hf : ∀ t, x.values[place]? = some t →
      f t.value = ((t.value.after nz).reading nz, t.value.after nz))
    {underWay : List (Nat × MemoCall)} (hsub : underWay ⊆ x.underWay) :
    Faithful raw ⟨x.values.modify place fun t => t.finish nz (f t.value), underWay⟩ := by
  constructor
  · intro t ht
    obtain ⟨i, hi⟩ := List.mem_iff_getElem?.mp ht
    rw [List.getElem?_modify, Option.map_eq_map, Option.map_eq_some_iff] at hi
    obtain ⟨t', ht', rfl⟩ := hi
    have hfaithful := h.values t' (List.mem_of_getElem? ht')
    split
    · next hplace => exact hfaithful.finish (hf t' (hplace ▸ ht'))
    · exact hfaithful
  · intro i call hcall
    obtain ⟨t, ht, hfits⟩ := h.underWay i call (hsub hcall)
    rw [List.getElem?_modify, ht]
    by_cases hplace : place = i
    · have hvalue : (f t.value).2 = t.value.after nz := by rw [hf t (hplace ▸ ht)]
      refine ⟨t.finish nz (f t.value), congrArg some (if_pos hplace), fun form hform => ?_⟩
      show form ∈ (f t.value).2.memo
      rw [hvalue]
      exact MemoValue.mem_memo_after (hfits form hform)
    · exact ⟨t, congrArg some (if_neg hplace), hfits⟩

theorem Faithful.step (h : x.Faithful raw) (event : MemoEvent) : (x.step event).Faithful raw := by
  have hsound : ∀ {place : Nat} {t : TrackedValue},
      x.values[place]? = some t → t.value.Sound := fun ht =>
    (h.values _ (List.mem_of_getElem? ht)).sound
  cases event with
  | normalize place nz =>
    exact h.modify (f := fun v => v.normalize nz)
      (fun t ht => MemoValue.normalize_eq (hsound ht) nz) (List.Subset.refl _)
  | clone place =>
    constructor
    · intro t ht
      rcases List.mem_append.mp ht with ht | ht
      · exact h.values t ht
      · obtain ⟨t', ht', rfl⟩ := Option.map_eq_some_iff.mp (Option.mem_toList.mp ht)
        rw [t'.clone_eq]
        exact h.values t' (List.mem_of_getElem? ht')
    · intro i call hcall
      obtain ⟨t, ht, hfits⟩ := h.underWay i call hcall
      exact ⟨t, getElem?_append_copies ht, hfits⟩
  | look place nz =>
    refine ⟨h.values, fun i call hcall => ?_⟩
    rcases List.mem_append.mp hcall with hcall | hcall
    · exact h.underWay i call hcall
    · obtain ⟨t, ht, heq⟩ := Option.map_eq_some_iff.mp (Option.mem_toList.mp hcall)
      cases heq
      exact ⟨t, ht, t.value.fits_look nz⟩
  | settle number =>
    rw [MemoSession.step]
    split
    · exact h
    · next place call hcall =>
      obtain ⟨t, ht, hfits⟩ := h.underWay place call (List.mem_of_getElem? hcall)
      refine h.modify (f := call.settle) (fun t' ht' => ?_) List.eraseIdx_subset
      obtain rfl : t = t' := Option.some.inj (ht.symm.trans ht')
      exact MemoCall.settle_eq (hsound ht) hfits

theorem Faithful.run (h : x.Faithful raw) (events : List MemoEvent) :
    (x.run events).Faithful raw := by
  induction events generalizing x with
  | nil => exact h
  | cons event events ih => exact ih (h.step event)

/-! ### What comes later -/

/-- A value stays at its place, and the calls on it only become more. -/
theorem exists_step {i : Nat} {t : TrackedValue} (h : x.values[i]? = some t) (event : MemoEvent) :
    ∃ t', (x.step event).values[i]? = some t' ∧ t.calls <+: t'.calls := by
  have hmodify : ∀ place nz (f : TrackedValue → Except SchemaError MemoValue.Reading × MemoValue),
      ∃ t', (x.values.modify place fun t => t.finish nz (f t))[i]? = some t' ∧
        t.calls <+: t'.calls := by
    intro place nz f
    rw [List.getElem?_modify, h]
    refine ⟨_, rfl, ?_⟩
    split
    · exact List.prefix_append _ _
    · exact List.prefix_refl _
  cases event with
  | normalize place nz => exact hmodify place nz _
  | clone place => exact ⟨t, getElem?_append_copies h, List.prefix_refl _⟩
  | look place nz => exact ⟨t, h, List.prefix_refl _⟩
  | settle number =>
    rw [step]
    split
    · exact ⟨t, h, List.prefix_refl _⟩
    · exact hmodify _ _ _

theorem exists_run {i : Nat} {t : TrackedValue} (h : x.values[i]? = some t)
    (events : List MemoEvent) :
    ∃ t', (x.run events).values[i]? = some t' ∧ t.calls <+: t'.calls := by
  induction events generalizing x t with
  | nil => exact ⟨t, h, List.prefix_refl _⟩
  | cons event events ih =>
    obtain ⟨t₁, h₁, hprefix₁⟩ := exists_step h event
    obtain ⟨t₂, h₂, hprefix₂⟩ := ih h₁
    exact ⟨t₂, h₂, hprefix₁.trans hprefix₂⟩

/-- **The memory of a value does not show.** Whatever is done with a raw value and its copies, each
of them is the raw value with the first form that a call on it has found, whose normalizer is known.
Every call has been answered with what its normalizer makes of the raw value, be it a form or an
error. So something is remembered from the first success on; copies have the memory of their
originals, a call that fails changes nothing, and a form that is remembered is never replaced. -/
theorem run_transparent (raw : String) (events : List MemoEvent) {place : Nat} {t : TrackedValue}
    (h : ((opened raw).run events).values[place]? = some t) :
    t.value = ⟨raw, t.calls.findSome? fun call => call.1.form? raw⟩ ∧
      (∀ call ∈ t.calls, call.2 =
        (call.1.normalize raw).map fun value => ⟨value, t.value.recalls call.1⟩) ∧
      (t.value.isNormalized = true ↔
        ∃ call ∈ t.calls, ∃ value, call.1.normalize raw = .ok value) ∧
      t.value.clone = t.value ∧
      (∀ nz err, nz.normalize raw = .error err →
        t.value.normalize nz = (.error err, t.value)) ∧
      ∀ more, ∃ t', ((opened raw).run (events ++ more)).values[place]? = some t' ∧
        t.calls <+: t'.calls ∧ (t.value.isNormalized = true → t'.value = t.value) := by
  have hall := (faithful_opened raw).run
  have hfaithful := (hall events).values t (List.mem_of_getElem? h)
  have hraw : t.value.raw = raw := by rw [hfaithful.value]
  refine ⟨hfaithful.value, fun call hcall => ?_, hfaithful.isNormalized_iff, t.value.clone_eq,
    fun nz err herr => ?_, fun more => ?_⟩
  · rw [hfaithful.answers call hcall, MemoValue.reading, hraw]
  · rw [← hraw] at herr
    rw [MemoValue.normalize_eq hfaithful.sound, MemoValue.after_of_error herr, MemoValue.reading,
      herr]
    rfl
  · obtain ⟨t', ht', hprefix⟩ := exists_run h more
    rw [← run_append] at ht'
    refine ⟨t', ht', hprefix, fun hsome => ?_⟩
    have hfaithful' := (hall (events ++ more)).values t' (List.mem_of_getElem? ht')
    obtain ⟨later, hlater⟩ := hprefix
    obtain ⟨form, hform⟩ := Option.isSome_iff_exists.mp hsome
    have hfirst : t.firstForm? raw = some form := by
      rw [hfaithful.value] at hform
      exact hform
    rw [hfaithful'.value, hfaithful.value, TrackedValue.firstForm?, ← hlater,
      List.findSome?_append]
    rw [TrackedValue.firstForm?] at hfirst ⊢
    rw [hfirst, Option.some_or]

/-- Two calls find the memory empty, and the one that began later is the first to end. Before that a
third one fails. The form of the slower one is its answer, but is not remembered, whatever comes. -/
theorem run_transparent_overtaken :
    let events : List MemoEvent :=
      [.look 0 .deepTrim, .look 0 .deepTrimToLower, .normalize 0 .numeric, .settle 1, .clone 0,
        .settle 0]
    ∃ t, ((opened " Alice").run events).values[0]? = some t ∧
      t.value = ⟨" Alice", some (.deepTrimToLower, .text "alice")⟩ ∧
      t.calls = [(.numeric, .error (.mismatch " Alice" "not an integer")),
        (.deepTrimToLower, .ok ⟨.text "alice", true⟩), (.deepTrim, .ok ⟨.text "Alice", false⟩)] ∧
      ∀ more, ∃ t', ((opened " Alice").run (events ++ more)).values[0]? = some t' ∧
        t'.value = t.value := by
  intro events
  have hrun : ((opened " Alice").run events).values[0]?.map (fun t => (t.value, t.calls)) =
      some (⟨" Alice", some (.deepTrimToLower, .text "alice")⟩,
        [(.numeric, .error (.mismatch " Alice" "not an integer")),
          (.deepTrimToLower, .ok ⟨.text "alice", true⟩),
          (.deepTrim, .ok ⟨.text "Alice", false⟩)]) := by decide +kernel
  obtain ⟨t, ht, heq⟩ := Option.map_eq_some_iff.mp hrun
  obtain ⟨hvalue, hcalls⟩ := Prod.mk.inj heq
  obtain ⟨-, -, -, -, -, hlater⟩ := run_transparent " Alice" events ht
  refine ⟨t, ht, hvalue, hcalls, fun more => ?_⟩
  obtain ⟨t', ht', -, hkept⟩ := hlater more
  exact ⟨t', ht', hkept (by rw [hvalue]; rfl)⟩

end MemoSession

end Directory
