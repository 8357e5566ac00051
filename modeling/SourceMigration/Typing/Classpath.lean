import SourceMigration.Tree.TypeName

/-!
# SourceMigration — known types

What is known about types that no unit declares: which exist, their supertypes, the types
of their fields and what their methods return. Links between types may dangle or form a
cycle, so climbing from a type to its ancestors stops at the first type met before.

## Results

* `climb_nodup` — no type is met twice on the way up.
-/

namespace SourceMigration

/-- What is known about one type. -/
structure Stub where
  name : TypeName
  supertype : Option TypeName := none
  fields : List (String × TypeName) := []
  /-- Methods with the type they return, if it is a class type. -/
  methods : List (String × Option TypeName) := []
  deriving Repr, Inhabited

/-- A set of known types, the later description of a type before an earlier one. -/
structure Classpath where
  stubs : List Stub
  deriving Repr, Inhabited

namespace Classpath

/-- The stub of a type. -/
def stub? (c : Classpath) (t : TypeName) : Option Stub := c.stubs.find? (·.name = t)

/-- Whether a type is known. -/
def knows (c : Classpath) (t : TypeName) : Bool := (c.stub? t).isSome

/-- The types of a list of stubs, of which a later one replaces an earlier one of the same
name, and further types of which no more than the name is known. -/
def ofStubs (stubs : List Stub) (names : List TypeName := []) : Classpath :=
  -- Lookup takes the first stub of a name, so later ones go to the front.
  names.foldl (fun c t => if c.knows t then c else ⟨c.stubs ++ [{ name := t }]⟩) ⟨stubs.reverse⟩

/-- The supertype of a type, as far as it is known. -/
def supertype? (c : Classpath) (t : TypeName) : Option TypeName := (c.stub? t).bind Stub.supertype

/-- The type and its ancestors up to one that was seen before. -/
def climb (c : Classpath) : Nat → List TypeName → TypeName → List TypeName
  | 0, _, _ => []
  | fuel + 1, seen, t =>
    if seen.contains t then []
    else
      t :: match c.supertype? t with
        | some u => climb c fuel (t :: seen) u
        | none => []

/-- A type and its ancestors, nearest first. Every type but the last has a stub, which bounds them. -/
def supertypes (c : Classpath) (t : TypeName) : List TypeName := c.climb (c.stubs.length + 1) [] t

/-- The type of a field of a type or of its nearest ancestor that has one of that name. -/
def fieldType? (c : Classpath) (owner : TypeName) (field : String) : Option TypeName :=
  (c.supertypes owner).findSome? fun t => (c.stub? t).bind fun s => s.fields.lookup field

/-- The type that declares a method visible on a type, with what the method returns. -/
def method? (c : Classpath) (owner : TypeName) (method : String) :
    Option (TypeName × Option TypeName) :=
  (c.supertypes owner).findSome? fun t =>
    (c.stub? t).bind fun s => (s.methods.lookup method).map fun r => (t, r)

theorem not_mem_climb (c : Classpath) {fuel : Nat} {seen : List TypeName} {s t : TypeName}
    (h : s ∈ seen) : s ∉ c.climb fuel seen t := by
  induction fuel generalizing seen t with
  | zero => simp [climb]
  | succ fuel ih =>
    unfold climb
    split
    · simp
    · rename_i ht
      have hst : s ≠ t := fun he => ht (by simpa [← he] using h)
      cases c.supertype? t with
      | none => simpa using hst
      | some u => simpa [hst] using ih (List.mem_cons_of_mem t h)

/-- No type is met twice on the way up. -/
theorem climb_nodup (c : Classpath) (fuel : Nat) (seen : List TypeName) (t : TypeName) :
    (c.climb fuel seen t).Nodup := by
  induction fuel generalizing seen t with
  | zero => simp [climb]
  | succ fuel ih =>
    unfold climb
    split
    · simp
    · cases c.supertype? t with
      | none => simp
      | some u => exact List.nodup_cons.mpr ⟨c.not_mem_climb (by simp), ih _ _⟩

end Classpath

end SourceMigration
