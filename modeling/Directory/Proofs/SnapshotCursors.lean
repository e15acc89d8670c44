import Directory.Proofs.SortedRange
import Directory.Store

/-!
# Cursors over snapshots

A structure is read while it is written. Readers hold versions of it, and a write changes the current
version in place only if nobody holds it; otherwise it makes a new one (`Shared.write`). A cursor
holds the version that was current when it was opened, and a position. It does not keep its place in
the version: each time it is asked, it looks for the first element behind its position
(`CursorSession.advance`).

* `OrderedView.beyond_excluded`: behind the first element of a range come the other ones;
* `CursorSession.Shows.step`: whatever happens, such a cursor answers like one that has the elements
  still to come in a list, which is what `Cursor` is;
* `cursors_enumerate`: each cursor hands out what there was at its opening, in order and once.
-/

namespace Directory

/-! ### Structures in order -/

/-- The elements of a structure, in ascending order of their keys. -/
structure OrderedView (σ α κ : Type) [Ord κ] where
  members : σ → List α
  key : α → κ
  ascending : ∀ s, (members s).Pairwise fun a b => compare (key a) (key b) = .lt

namespace OrderedView

/-- The pairs of an index by key. -/
def byKey : OrderedView Postings (NormalValue × EntryId) (NormalValue × EntryId) where
  members p := p.forward.toList
  key pair := pair
  ascending p := p.forward.ascending

/-- The pairs of an index by id. -/
def byId : OrderedView Postings (EntryId × NormalValue) (EntryId × NormalValue) where
  members p := p.reverse.toList
  key pair := pair
  ascending p := p.reverse.ascending

/-- The entries by id. -/
def entries : OrderedView (SortedMap EntryId Entry) (EntryId × Entry) EntryId where
  members m := m.toList
  key := Prod.fst
  ascending m := m.ascending

variable {σ α κ : Type} [Ord κ] (view : OrderedView σ α κ)

/-- The elements from a position on. -/
def beyond (s : σ) (position : RangeEnd κ) : List α :=
  (view.members s).filter fun a => position.isBelow (view.key a)

theorem beyond_unbounded (s : σ) : view.beyond s .unbounded = view.members s :=
  List.filter_eq_self.mpr fun _ _ => rfl

theorem beyond_ascending (s : σ) (position : RangeEnd κ) :
    (view.beyond s position).Pairwise fun a b => compare (view.key a) (view.key b) = .lt :=
  (view.ascending s).filter _

/-- What is greater than something behind a position is behind it, too. -/
theorem isBelow_of_isGT [Std.TransOrd κ] {position : RangeEnd κ} {a b : κ}
    (ha : position.isBelow a = true) (hb : (compare b a).isGT = true) :
    position.isBelow b = true := by
  have hgt : compare b a = .gt := Ordering.isGT_iff_eq_gt.mp hb
  cases position with
  | included c =>
    have hge : (compare b c).isGE = true :=
      Std.TransCmp.isGE_trans (Ordering.isGE_of_eq_gt hgt) ha
    exact hge
  | excluded c =>
    have hgt' : compare a c = .gt := Ordering.isGT_iff_eq_gt.mp ha
    exact Ordering.isGT_iff_eq_gt.mpr (Std.TransCmp.gt_trans hgt hgt')
  | unbounded => rfl

/-- Behind the first element of those behind a position come the other ones. -/
theorem beyond_excluded [Std.TransOrd κ] {s : σ} {position : RangeEnd κ} {a : α} {rest : List α}
    (h : view.beyond s position = a :: rest) :
    view.beyond s (.excluded (view.key a)) = rest := by
  have hsorted := view.beyond_ascending s position
  rw [h] at hsorted
  obtain ⟨hrest, -⟩ := List.pairwise_cons.mp hsorted
  have ha : (RangeEnd.excluded (view.key a)).isBelow (view.key a) = false := by
    have hself : compare (view.key a) (view.key a) = .eq := Std.ReflCmp.compare_self
    rw [RangeEnd.isBelow, hself]
    rfl
  have hall : ∀ b ∈ rest, (RangeEnd.excluded (view.key a)).isBelow (view.key b) = true :=
    fun b hb => Ordering.isGT_iff_eq_gt.mpr (Std.OrientedCmp.gt_of_lt (hrest b hb))
  have hmem : a ∈ view.beyond s position := by rw [h]; exact List.mem_cons_self
  have hposition : position.isBelow (view.key a) = true := (List.mem_filter.mp hmem).2
  calc view.beyond s (.excluded (view.key a))
      = (view.beyond s position).filter fun b =>
          (RangeEnd.excluded (view.key a)).isBelow (view.key b) := by
        rw [beyond, beyond, List.filter_filter]
        refine List.filter_congr fun b _ => ?_
        cases hb : (RangeEnd.excluded (view.key a)).isBelow (view.key b) with
        | false => rfl
        | true => exact (isBelow_of_isGT hposition hb).symm
    _ = rest := by
        rw [h, List.filter_cons_of_neg (by rw [ha]; exact Bool.false_ne_true),
          List.filter_eq_self.mpr hall]

end OrderedView

/-! ### Versions -/

/-- A structure that is read while it is written: the versions of it, and which one is current. -/
structure Shared (σ : Type) where
  versions : List σ
  current : Fin versions.length

namespace Shared

variable {σ : Type}

/-- The structure as it is now. -/
def contents (x : Shared σ) : σ := x.versions.get x.current

/-- Change the structure. The current version is changed in place unless a reader holds it. -/
def write (x : Shared σ) (isHeld : Bool) (change : σ → σ) : Shared σ :=
  if isHeld then
    ⟨x.versions ++ [change x.contents], ⟨x.versions.length, by simp⟩⟩
  else
    ⟨x.versions.set x.current (change x.contents), ⟨x.current, by simp⟩⟩

theorem contents_write (x : Shared σ) (isHeld : Bool) (change : σ → σ) :
    (x.write isHeld change).contents = change x.contents := by
  cases isHeld <;> simp [write, contents]

/-- A version that is held does not change. -/
theorem getElem?_write {x : Shared σ} {isHeld : Bool} {n : Nat} {s : σ}
    (h : x.versions[n]? = some s) (hheld : n = x.current → isHeld = true) (change : σ → σ) :
    (x.write isHeld change).versions[n]? = some s := by
  obtain ⟨hlt, -⟩ := List.getElem?_eq_some_iff.mp h
  cases isHeld with
  | true =>
    show (x.versions ++ _)[n]? = some s
    rw [List.getElem?_append_left hlt, h]
  | false =>
    have hne : (x.current : Nat) ≠ n := fun heq => Bool.false_ne_true (hheld heq.symm)
    show (x.versions.set x.current _)[n]? = some s
    rw [List.getElem?_set_ne hne, h]

end Shared

/-! ### Sessions -/

/-- What happens after a cursor has been opened. -/
inductive ReadEvent (σ : Type) where
  | write (change : σ → σ)
  /-- Another reader takes hold of the current version. -/
  | hold
  /-- Another reader lets go of a version. -/
  | release (version : Nat)
  /-- The cursor is asked for the next element. -/
  | next
  | close

namespace ReadEvent

variable {σ : Type}

/-- What the event does to the structure. -/
def change : ReadEvent σ → σ → σ
  | write change => change
  | _ => id

/-- The event asks for the next element. -/
def isNext : ReadEvent σ → Bool
  | next => true
  | _ => false

/-- The event closes the cursor. -/
def isClose : ReadEvent σ → Bool
  | close => true
  | _ => false

end ReadEvent

/-- A cursor on a structure that goes on changing. -/
structure CursorSession (σ κ : Type) where
  shared : Shared σ
  /-- The versions that other readers hold. -/
  others : List Nat
  /-- The version that the cursor holds, until it is closed. -/
  version : Option Nat
  position : RangeEnd κ

namespace CursorSession

variable {σ α κ : Type} [Ord κ]

/-- A cursor that has just been opened, and begins at the given place. -/
def opened (shared : Shared σ) (others : List Nat) (start : RangeEnd κ) : CursorSession σ κ :=
  ⟨shared, others, some shared.current, start⟩

/-- A reader holds the current version. -/
def isHeld (x : CursorSession σ κ) : Bool :=
  decide (↑x.shared.current ∈ x.others) || x.version == some ↑x.shared.current

/-- The structure as the cursor sees it, until it is closed. -/
def snapshot (x : CursorSession σ κ) : Option σ := x.version.bind fun n => x.shared.versions[n]?

/-- The next element and the cursor behind it. -/
def advance (view : OrderedView σ α κ) (x : CursorSession σ κ) : Option α × CursorSession σ κ :=
  match x.snapshot with
  | none => (none, x)
  | some s =>
    match (view.beyond s x.position).head? with
    | none => (none, x)
    | some a => (some a, { x with position := .excluded (view.key a) })

/-- The session after an event. -/
def step (view : OrderedView σ α κ) (x : CursorSession σ κ) :
    ReadEvent σ → CursorSession σ κ
  | .write change => { x with shared := x.shared.write x.isHeld change }
  | .hold => { x with others := ↑x.shared.current :: x.others }
  | .release version => { x with others := x.others.erase version }
  | .next => (x.advance view).2
  | .close => { x with version := none }

/-- The session after several events. -/
def run (view : OrderedView σ α κ) (x : CursorSession σ κ) (events : List (ReadEvent σ)) :
    CursorSession σ κ := events.foldl (step view) x

variable {view : OrderedView σ α κ} {x : CursorSession σ κ}

theorem shared_advance (view : OrderedView σ α κ) (x : CursorSession σ κ) :
    (x.advance view).2.shared = x.shared := by
  unfold advance
  split
  · rfl
  · split <;> rfl

/-- Writes reach the structure, whoever reads it. -/
theorem contents_step (view : OrderedView σ α κ) (x : CursorSession σ κ) (event : ReadEvent σ) :
    (x.step view event).shared.contents = event.change x.shared.contents := by
  cases event with
  | write change => exact x.shared.contents_write x.isHeld change
  | next => exact congrArg Shared.contents (x.shared_advance view)
  | _ => rfl

theorem contents_run (view : OrderedView σ α κ) (x : CursorSession σ κ)
    (events : List (ReadEvent σ)) :
    (x.run view events).shared.contents =
      events.foldl (fun s event => event.change s) x.shared.contents := by
  induction events generalizing x with
  | nil => rfl
  | cons event events ih =>
    rw [List.foldl_cons, ← x.contents_step view event]
    exact ih (x.step view event)

end CursorSession

/-! ### Cursors with their elements at hand -/

namespace Cursor

variable {σ α : Type}

/-- A cursor with its elements at hand, after an event. -/
def step (d : Cursor α) : ReadEvent σ → Cursor α
  | .next => d.next.2
  | .close => d.close
  | _ => d

/-- A cursor with its elements at hand, after several events. -/
def run (d : Cursor α) (events : List (ReadEvent σ)) : Cursor α := events.foldl step d

theorem run_closed (events : List (ReadEvent σ)) : (closed : Cursor α).run events = closed := by
  induction events with
  | nil => rfl
  | cons event events ih =>
    have hstep : (closed : Cursor α).step event = closed := by cases event <;> rfl
    rw [run, List.foldl_cons, hstep]
    exact ih

/-- Each time it is asked, the cursor drops an element. -/
theorem run_reading (elements : List α) (events : List (ReadEvent σ)) :
    (reading elements).run events =
      if events.any ReadEvent.isClose then closed
      else reading (elements.drop (events.countP ReadEvent.isNext)) := by
  induction events generalizing elements with
  | nil => rfl
  | cons event events ih =>
    have hcons : (reading elements).run (event :: events) =
        ((reading elements).step event).run events := rfl
    rw [hcons, List.any_cons]
    cases event with
    | close => exact run_closed events
    | next =>
      have hstep : (reading elements).step (.next : ReadEvent σ) = reading (elements.drop 1) := by
        cases elements <;> rfl
      rw [hstep, ih, List.countP_cons_of_pos rfl, List.drop_drop, Nat.add_comm]
      rfl
    | _ =>
      rw [List.countP_cons_of_neg Bool.false_ne_true]
      exact ih elements

/-- The answer is the element whose turn it is. -/
theorem next_run_reading (elements : List α) (events : List (ReadEvent σ)) :
    ((reading elements).run events).next.1 =
      if events.any ReadEvent.isClose then none
      else elements[events.countP ReadEvent.isNext]? := by
  rw [run_reading]
  split
  · rfl
  · rw [← List.head?_drop]
    cases elements.drop (events.countP ReadEvent.isNext) <;> rfl

end Cursor

namespace CursorSession

variable {σ α κ : Type} [Ord κ] {view : OrderedView σ α κ} {x : CursorSession σ κ}

theorem advance_of_closed (h : x.snapshot = none) : x.advance view = (none, x) := by
  rw [advance, h]

theorem advance_of_nil {s : σ} (h : x.snapshot = some s) (hnil : view.beyond s x.position = []) :
    x.advance view = (none, x) := by
  simp only [advance, h, hnil, List.head?_nil]

theorem advance_of_cons {s : σ} {a : α} {rest : List α} (h : x.snapshot = some s)
    (hcons : view.beyond s x.position = a :: rest) :
    x.advance view = (some a, { x with position := .excluded (view.key a) }) := by
  simp only [advance, h, hcons, List.head?_cons]

/-- The elements behind the position, in the version that the cursor holds, are those still to
come. -/
inductive Shows (view : OrderedView σ α κ) (x : CursorSession σ κ) : Cursor α → Prop where
  | reading {n : Nat} {s : σ} (hversion : x.version = some n)
      (hcontents : x.shared.versions[n]? = some s) :
      Shows view x (.reading (view.beyond s x.position))
  | closed (hversion : x.version = none) : Shows view x .closed

theorem shows_opened (view : OrderedView σ α κ) (shared : Shared σ) (others : List Nat)
    (start : RangeEnd κ) :
    Shows view (opened shared others start) (.reading (view.beyond shared.contents start)) :=
  .reading rfl (List.getElem?_eq_getElem shared.current.isLt)

variable [Std.TransOrd κ] {d : Cursor α}

/-- The cursor gives the first of the elements still to come, and shows the others then. -/
theorem Shows.advance (h : x.Shows view d) :
    (x.advance view).1 = d.next.1 ∧ (x.advance view).2.Shows view d.next.2 := by
  cases h with
  | closed hversion =>
    have hsnapshot : x.snapshot = none := by rw [snapshot, hversion, Option.bind_none]
    rw [advance_of_closed hsnapshot]
    exact ⟨rfl, .closed hversion⟩
  | @reading n s hversion hcontents =>
    have hsnapshot : x.snapshot = some s := by
      rw [snapshot, hversion, Option.bind_some, hcontents]
    cases hbeyond : view.beyond s x.position with
    | nil =>
      rw [advance_of_nil hsnapshot hbeyond]
      refine ⟨rfl, ?_⟩
      rw [Cursor.next_nil, ← hbeyond]
      exact .reading hversion hcontents
    | cons a rest =>
      rw [advance_of_cons hsnapshot hbeyond]
      refine ⟨rfl, ?_⟩
      rw [Cursor.next_cons, ← view.beyond_excluded hbeyond]
      exact .reading hversion hcontents

theorem Shows.step (h : x.Shows view d) (event : ReadEvent σ) :
    (x.step view event).Shows view (d.step event) := by
  cases event with
  | next => exact h.advance.2
  | close => exact .closed rfl
  | write change =>
    cases h with
    | closed hversion => exact .closed hversion
    | @reading n s hversion hcontents =>
      refine .reading hversion (Shared.getElem?_write hcontents (fun hn => ?_) change)
      rw [isHeld, hversion, hn, beq_self_eq_true, Bool.or_true]
  | _ =>
    cases h with
    | closed hversion => exact .closed hversion
    | reading hversion hcontents => exact .reading hversion hcontents

theorem Shows.run (h : x.Shows view d) (events : List (ReadEvent σ)) :
    (x.run view events).Shows view (d.run events) := by
  induction events generalizing x d with
  | nil => exact h
  | cons event events ih => exact ih (h.step event)

/-- From here on, whatever happens, the cursor hands out the elements of a kind, in ascending order
of their keys and each once, and then nothing any more; nor does it once it is closed. It answers
like the cursor that has them at hand, and it does not keep any write from the structure. -/
structure HandsOut (view : OrderedView σ α κ) (x : CursorSession σ κ) (d : Cursor α)
    (P : α → Prop) : Prop where
  exists_elements : ∃ elements, d = .reading elements ∧
    elements.Pairwise (fun a b => compare (view.key a) (view.key b) = .lt) ∧
    (∀ a, a ∈ elements ↔ P a) ∧
    ∀ events, ((x.run view events).advance view).1 =
      if events.any ReadEvent.isClose then none
      else elements[events.countP ReadEvent.isNext]?
  answers : ∀ events, ((x.run view events).advance view).1 = (d.run events).next.1
  writes : ∀ events, (x.run view events).shared.contents =
    events.foldl (fun s event => event.change s) x.shared.contents

theorem handsOut_opened (view : OrderedView σ α κ) (shared : Shared σ) (others : List Nat)
    {start : RangeEnd κ} {elements : List α} {P : α → Prop}
    (helements : view.beyond shared.contents start = elements) (hP : ∀ a, a ∈ elements ↔ P a) :
    HandsOut view (opened shared others start) (.reading elements) P := by
  subst helements
  have hanswers : ∀ events, (((opened shared others start).run view events).advance view).1 =
      ((Cursor.reading (view.beyond shared.contents start)).run events).next.1 := fun events =>
    ((shows_opened view shared others start).run events).advance.1
  refine ⟨⟨_, rfl, view.beyond_ascending _ _, hP, fun events => ?_⟩, hanswers,
    contents_run view _⟩
  rw [hanswers, Cursor.next_run_reading]

end CursorSession

/-! ### The four cursors -/

/-- The pairs with a key that is at least `lower` are those from the first such pair on. -/
theorem OrderedView.beyond_byKey (p : Postings) (lower : NormalValue) :
    byKey.beyond p (.included (lower, leastId)) = p.startingAt lower := by
  have hadmits : byKey.beyond p (.included (lower, leastId)) =
      p.forward.toList.filter (keyRange (.included lower) .unbounded).admits :=
    List.filter_congr fun pair _ => (Bool.and_true _).symm
  rw [hadmits]
  exact Option.some.inj
    ((SortedSet.range?_eq_some rfl p.forward).symm.trans (p.range?_startingAt lower))

open CursorSession

/-- **Cursors hand out what was there when they were opened.** Let an index, or the table of the
entries, be shared by any readers. Whatever is written to it afterwards, and whoever else comes and
goes, the cursors over the index give its pairs by key, those with a key that is at least the given
one, and its pairs by id, and the cursor over the table gives the entries by id. -/
theorem cursors_enumerate :
    (∀ (shared : Shared Postings) (others : List Nat) (ix : AttributeIndex),
      ix.postings = shared.contents →
        HandsOut .byKey (opened shared others .unbounded) ix.cursor (· ∈ ix.postings.forward) ∧
        (∀ lower, HandsOut .byKey (opened shared others (.included (lower, leastId)))
          (ix.cursorFrom lower) fun pair =>
            pair ∈ ix.postings.forward ∧ (ix.rule.compare pair.1 lower).isGE = true) ∧
        HandsOut .byId (opened shared others .unbounded) ix.reverseCursor
          (· ∈ ix.postings.reverse)) ∧
      ∀ (shared : Shared (SortedMap EntryId Entry)) (others : List Nat) (s : Store),
        s.entries = shared.contents →
          HandsOut .entries (opened shared others .unbounded) s.cursor (· ∈ s.entries.toList) := by
  refine ⟨fun shared others ix hix => ?_, fun shared others s hs => ?_⟩
  · rw [AttributeIndex.cursor, AttributeIndex.reverseCursor, hix]
    refine ⟨?_, fun lower => ?_, ?_⟩
    · exact handsOut_opened _ _ _ (OrderedView.beyond_unbounded _ _) fun _ => Iff.rfl
    · rw [AttributeIndex.cursorFrom, hix]
      refine handsOut_opened _ _ _ (OrderedView.beyond_byKey _ lower) fun pair => ?_
      rw [MatchingRule.compare_eq]
      exact Postings.mem_startingAt
    · exact handsOut_opened _ _ _ (OrderedView.beyond_unbounded _ _) fun _ => Iff.rfl
  · rw [Store.cursor, hs]
    exact handsOut_opened _ _ _ (OrderedView.beyond_unbounded _ _) fun _ => Iff.rfl

/-- Entry 1 leaves the index under a cursor that has handed out its first key. The version that the
cursor holds is left alone by that, and not current any more, so that the next write changes the new
one in place. The cursor goes on to the second key of entry 1. -/
theorem cursors_enumerate_deleted_entry :
    let p := (Postings.empty.insertAll [.text "a", .text "b"] 1).insert (.text "c") 2
    let ix := { AttributeIndex.system "1.1" "attr" with postings := p }
    let events : List (ReadEvent Postings) :=
      [.next, .write fun p => p.removeId 1, .write fun p => p.insert (.text "d") 3]
    let x := (opened ⟨[p], 0⟩ [] .unbounded).run .byKey events
    ix.postings = p ∧ (x.advance .byKey).1 = some (.text "b", 1) ∧
      x.shared.contents.forward.toList = [(.text "c", 2), (.text "d", 3)] ∧
      x.shared.versions.length = 2 := by
  intro p ix events x
  obtain ⟨hindex, -⟩ := cursors_enumerate
  obtain ⟨hcursor, -, -⟩ := hindex ⟨[p], 0⟩ [] ix rfl
  have hpairs := congrArg (fun p : Postings => p.forward.toList) (hcursor.writes events)
  exact ⟨rfl, (hcursor.answers events).trans (by decide +kernel),
    hpairs.trans (by decide +kernel), by decide +kernel⟩

end Directory
