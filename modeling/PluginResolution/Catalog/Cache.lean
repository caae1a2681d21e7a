import PluginResolution.Association
import PluginResolution.Catalog

/-!
Kept catalogs: the last one stored for each version line, when it was stored, and how many were
stored for the line so far. A copy is fresh for less than the time to live.
-/
namespace PluginResolution.Catalog

structure Kept where
  catalog : Catalog
  storedAt : Nat
  count : Nat
  deriving DecidableEq, Repr

structure Cache where
  /-- How long a copy is fresh, in milliseconds. -/
  ttl : Nat
  kept : List (String × Kept) := []
  deriving DecidableEq, Repr

namespace Cache

def find? (c : Cache) (line : String) : Option Kept :=
  c.kept.lookup line

def count (c : Cache) (line : String) : Nat :=
  (c.find? line).elim 0 (·.count)

def fresh? (c : Cache) (now : Nat) (line : String) : Option Catalog :=
  ((c.find? line).filter fun k => now - k.storedAt < c.ttl).map (·.catalog)

def newer? (c : Cache) (line : String) (n : Nat) : Option Catalog :=
  ((c.find? line).filter fun k => n < k.count).map (·.catalog)

def store (c : Cache) (now : Nat) (catalog : Catalog) : Cache :=
  { c with kept :=
      (catalog.line, ⟨catalog, now, c.count catalog.line + 1⟩) ::
        c.kept.filter (·.1 ≠ catalog.line) }

@[simp] theorem find?_store_self (c : Cache) (now : Nat) (catalog : Catalog) :
    (c.store now catalog).find? catalog.line =
      some ⟨catalog, now, c.count catalog.line + 1⟩ := by
  simp [find?, store]

@[simp] theorem count_store_self (c : Cache) (now : Nat) (catalog : Catalog) :
    (c.store now catalog).count catalog.line = c.count catalog.line + 1 := by
  rw [count, find?_store_self, Option.elim_some]

theorem find?_store_of_ne (c : Cache) (now : Nat) {catalog : Catalog} {line : String}
    (h : line ≠ catalog.line) : (c.store now catalog).find? line = c.find? line := by
  have hne : (line == catalog.line) = false := by simpa using h
  rw [find?, store, List.lookup_cons, hne]
  exact lookup_filter_of_ne h c.kept

theorem count_store_of_ne (c : Cache) (now : Nat) {catalog : Catalog} {line : String}
    (h : line ≠ catalog.line) : (c.store now catalog).count line = c.count line := by
  rw [count, count, find?_store_of_ne c now h]

theorem newer?_eq_none {c : Cache} {line : String} {n : Nat} :
    c.newer? line n = none ↔ c.count line ≤ n := by
  cases h : c.find? line with
  | none => simp [newer?, count, h]
  | some k => simp [newer?, count, h]

end Cache

end PluginResolution.Catalog
