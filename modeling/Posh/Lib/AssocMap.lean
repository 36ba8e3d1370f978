import Mathlib.Algebra.GroupWithZero.Nat
import Mathlib.Data.List.Nodup

/-!
Finite maps with natural-number keys as lists of pairs, for maps whose order of
iteration does not matter to the code that uses them. `Distinct` says that no key
occurs twice, which inserting and erasing keep; `total f` adds up what `f` gives for
the values.
-/

namespace Posh.Lib

abbrev AssocMap (α : Type) := List (Nat × α)

namespace AssocMap

variable {α : Type}

def lookup (key : Nat) (m : AssocMap α) : Option α :=
  (m.find? (·.1 == key)).map (·.2)

def erase (key : Nat) (m : AssocMap α) : AssocMap α :=
  m.filter (·.1 != key)

def insert (key : Nat) (a : α) (m : AssocMap α) : AssocMap α :=
  m.erase key ++ [(key, a)]

def values (m : AssocMap α) : List α :=
  m.map (·.2)

section

variable {m : AssocMap α} {key k : Nat} {a : α}

theorem lookup_erase : (m.erase key).lookup k = if k = key then none else m.lookup k := by
  induction m with
  | nil => simp [erase, lookup]
  | cons e m ih =>
    simp only [erase, lookup, List.filter_cons, List.find?_cons] at ih ⊢
    grind

theorem lookup_insert :
    (m.insert key a).lookup k = if k = key then some a else m.lookup k := by
  have appended : (m.insert key a).lookup k =
      ((m.erase key).lookup k).or (if k = key then some a else none) := by
    rw [lookup, insert, List.find?_append, List.find?_singleton, Option.map_or]
    by_cases same : k = key
    · rw [if_pos same, if_pos (by simp [same])]
      rfl
    · rw [if_neg same, if_neg (by simpa using Ne.symm same)]
      rfl
  rw [appended, lookup_erase]
  by_cases same : k = key
  · simp [same]
  · simp [same]

theorem mem_of_lookup (found : m.lookup k = some a) : (k, a) ∈ m := by
  unfold lookup at found
  obtain ⟨e, at_, rfl⟩ := Option.map_eq_some_iff.mp found
  have same : e.1 = k := by simpa using List.find?_some at_
  rw [← same]
  exact List.mem_of_find?_eq_some at_

theorem isSome_lookup_of_mem (mem : (k, a) ∈ m) : (m.lookup k).isSome = true := by
  unfold lookup
  rw [Option.isSome_map, List.find?_isSome]
  exact ⟨(k, a), mem, beq_self_eq_true k⟩

/-- No key occurs twice. -/
def Distinct (m : AssocMap α) : Prop :=
  (m.map (·.1)).Nodup

theorem Distinct.lookup_of_mem (distinct : m.Distinct) (mem : (k, a) ∈ m) : m.lookup k = some a := by
  obtain ⟨b, found⟩ := Option.isSome_iff_exists.mp (isSome_lookup_of_mem mem)
  have same := List.inj_on_of_nodup_map distinct (mem_of_lookup found) mem rfl
  rwa [(Prod.mk.inj same).2] at found

theorem Distinct.erase (distinct : m.Distinct) : (m.erase key).Distinct :=
  distinct.sublist (List.filter_sublist.map _)

theorem Distinct.insert (distinct : m.Distinct) : (m.insert key a).Distinct := by
  unfold Distinct AssocMap.insert
  rw [List.map_append, List.nodup_append]
  refine ⟨distinct.erase, List.nodup_singleton _, ?_⟩
  rintro k mem k' last rfl
  obtain ⟨e, inside, rfl⟩ := List.mem_map.mp mem
  have kept := (List.mem_filter.mp inside).2
  have same : e.1 = key := by simpa using last
  simp [same] at kept

/-- The sum over the values. -/
def total (f : α → Nat) (m : AssocMap α) : Nat :=
  (m.map fun e => f e.2).sum

theorem total_insert (f : α → Nat) : (m.insert key a).total f = (m.erase key).total f + f a := by
  simp [total, insert]

theorem Distinct.total_erase (distinct : m.Distinct) (f : α → Nat) (key : Nat) :
    (m.erase key).total f + ((m.lookup key).map f).getD 0 = m.total f := by
  induction m with
  | nil => rfl
  | cons e m ih =>
    obtain ⟨new, rest⟩ := List.nodup_cons.mp distinct
    have later := ih rest
    by_cases same : e.1 = key
    · -- the rest has no such key
      have absent : ∀ e' ∈ m, (e'.1 != key) = true := by
        intro e' mem
        rw [bne_iff_ne]
        intro again
        have key_eq : e'.1 = e.1 := again.trans same.symm
        have inside : e'.1 ∈ m.map (·.1) := List.mem_map_of_mem mem
        rw [key_eq] at inside
        exact new inside
      have kept : AssocMap.erase key m = m := List.filter_eq_self.mpr absent
      have erased : AssocMap.erase key (e :: m) = m := by
        rw [AssocMap.erase, List.filter_cons, if_neg (by simp [same])]
        exact kept
      have found : AssocMap.lookup key (e :: m) = some e.2 := by
        simp [lookup, same]
      rw [erased, found]
      simp [total, Nat.add_comm]
    · have erased : AssocMap.erase key (e :: m) = e :: AssocMap.erase key m := by
        rw [AssocMap.erase, List.filter_cons, if_pos (by simp [same])]
        rfl
      have found : AssocMap.lookup key (e :: m) = AssocMap.lookup key m := by
        simp [lookup, same]
      rw [erased, found]
      simp only [total, List.map_cons, List.sum_cons] at later ⊢
      omega

end

end AssocMap

end Posh.Lib
