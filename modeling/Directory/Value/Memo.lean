import Directory.Value.Normalizer

/-!
# Values with a memory

A raw value that remembers the first canonical form it was brought into, together with the
normalizer that made it. Another normalizer leaves the memory alone, and so does a failure. A copy
of the value has the memory of its original at that moment, and one of its own from then on.
-/

namespace Directory

/-- A raw value and what is remembered of it. -/
structure MemoValue where
  raw : String
  memo : Option (Normalizer × NormalValue) := none
  deriving DecidableEq, Repr

namespace MemoValue

/-- A raw value of which nothing is remembered. -/
def new (raw : String) : MemoValue := { raw }

/-- The value has been normalized successfully. -/
def isNormalized (v : MemoValue) : Bool := v.memo.isSome

/-- The form that is remembered, which is the given one if there was none before. -/
def remember (v : MemoValue) (form : Normalizer × NormalValue) :
    (Normalizer × NormalValue) × MemoValue :=
  match v.memo with
  | some known => (known, v)
  | none => (form, { v with memo := some form })

/-- A copy of the value, made from its raw value and what is remembered of it. -/
def clone (v : MemoValue) : MemoValue :=
  match v.memo with
  | some form => ((new v.raw).remember form).2
  | none => new v.raw

theorem clone_eq (v : MemoValue) : v.clone = v := by
  obtain ⟨raw, memo⟩ := v
  cases memo <;> rfl

/-- A canonical form, and whether it is the remembered one. -/
structure Reading where
  value : NormalValue
  remembered : Bool
  deriving DecidableEq, Repr

/-- Normalize the value, from memory where possible, and remember the first form found. -/
def normalize (v : MemoValue) (nz : Normalizer) : Except SchemaError Reading × MemoValue :=
  match v.memo with
  | some (known, value) =>
    if known = nz then (.ok ⟨value, true⟩, v)
    else ((nz.normalize v.raw).map fun value => ⟨value, false⟩, v)
  | none =>
    match nz.normalize v.raw with
    | .ok value => (.ok ⟨value, true⟩, { v with memo := some (nz, value) })
    | .error e => (.error e, v)

end MemoValue

end Directory
