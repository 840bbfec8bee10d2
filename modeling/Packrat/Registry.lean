import Std.Data.HashMap
import Packrat.Checksum
import Packrat.Grammar.Binary
import Packrat.Program.Lowering

/-!
# Registries

A registry keeps the programs of grammars it was asked for. Every compilation makes a new
instance, told from all others by its serial number; a grammar whose instance is held gets that
same instance again. Failed compilations leave the registry as it was.

A grammar is known by its binary form. The checksum of the form tells in which bucket the instance
stands, and the form itself which one of the bucket it is.
-/

namespace Packrat

/-- A program that was made by a registry. -/
structure Instance where
  serial : Nat
  program : Program

/-- Instances with the binary forms of their grammars. -/
abbrev Bucket := Array (List UInt8 × Instance)

namespace Bucket

/-- The instance of the grammar with some form. -/
def find? (b : Bucket) (form : List UInt8) : Option Instance :=
  (Array.find? (fun entry => entry.1 == form) b).map (·.2)

/-- Puts the last entry in the place of another one. -/
def swapRemove (b : Bucket) (i : Nat) (h : i < b.size) : Bucket :=
  (b.swap i (b.size - 1)).pop

end Bucket

/-- A registry of programs. -/
structure Registry where
  compiler : Compiler := {}
  /-- The instances that are held, by the checksums of the forms. -/
  buckets : Std.HashMap UInt32 Bucket := {}
  /-- How many instances were made. -/
  made : Nat := 0

namespace Registry

/-- The instance that is held for a grammar. -/
def find? (r : Registry) (g : Grammar) : Option Instance := do
  (← r.buckets[crc32 g.encode]?).find? g.encode

/-- The instance for a grammar, which is made if none is held. -/
def get (r : Registry) (g : Grammar) : Except GrammarError Instance × Registry :=
  match r.find? g with
  | some found => (.ok found, r)
  | none =>
    match r.compiler.compile g with
    | .error problem => (.error problem, r)
    | .ok (program, _) =>
      let new : Instance := ⟨r.made, program⟩
      let checksum := crc32 g.encode
      let bucket := r.buckets.getD checksum #[]
      (.ok new, { r with
        buckets := r.buckets.insert checksum (bucket.push (g.encode, new))
        made := r.made + 1 })

/-- Whether an instance is held for a grammar. -/
def contains (r : Registry) (g : Grammar) : Bool := (r.find? g).isSome

/-- Gives up the instance for a grammar, and its bucket if nothing is left there. -/
def remove (r : Registry) (g : Grammar) : Option Instance × Registry :=
  let checksum := crc32 g.encode
  match r.buckets[checksum]? with
  | none => (none, r)
  | some bucket =>
    match bucket.findFinIdx? (fun entry => entry.1 == g.encode) with
    | none => (none, r)
    | some place =>
      let rest := Bucket.swapRemove bucket place place.isLt
      (some bucket[place].2, { r with
        buckets :=
          if rest.isEmpty then r.buckets.erase checksum else r.buckets.insert checksum rest })

/-- Gives up all instances. -/
def clear (r : Registry) : Registry := { r with buckets := {} }

/-- How many instances are held. -/
def size (r : Registry) : Nat := r.buckets.fold (fun n _ bucket => n + bucket.size) 0

/-- Whether no instance is held. -/
def isEmpty (r : Registry) : Bool := r.size == 0

end Registry

end Packrat
