import Mathlib.Data.Finmap

/-! Hash tables as finite maps without an order. A loop over a table takes the order
in which it meets the keys as an argument. -/
namespace Morton

abbrev Table (K V : Type) := Finmap fun _ : K => V

namespace Table
variable {K V : Type} [DecidableEq K]

theorem lookup_insert (t : Table K V) (k j : K) (v : V) :
    (t.insert k v).lookup j = if j = k then some v else t.lookup j := by
  by_cases h : j = k
  · rw [if_pos h, h, Finmap.lookup_insert]
  · rw [if_neg h, Finmap.lookup_insert_of_ne t h]

theorem lookup_erase (t : Table K V) (k j : K) :
    (t.erase k).lookup j = if j = k then none else t.lookup j := by
  by_cases h : j = k
  · rw [if_pos h, h, Finmap.lookup_erase]
  · rw [if_neg h, Finmap.lookup_erase_ne h]

theorem lookup_erase_some {t : Table K V} {k j : K} {v : V}
    (h : (t.erase k).lookup j = some v) : j ≠ k ∧ t.lookup j = some v := by
  rw [lookup_erase] at h
  split at h
  · cases h
  · exact ⟨‹_›, h⟩

theorem keys_insert (t : Table K V) (k : K) (v : V) : (t.insert k v).keys = insert k t.keys := by
  ext j
  rw [Finmap.mem_keys, Finmap.mem_insert, Finset.mem_insert, Finmap.mem_keys]

theorem mem_keys_iff {t : Table K V} {k : K} : k ∈ t.keys ↔ ∃ v, t.lookup k = some v :=
  Finmap.mem_keys.trans Finmap.mem_iff

theorem notMem_keys {t : Table K V} {k : K} (h : t.lookup k = none) : k ∉ t.keys := by
  simp [Finmap.mem_keys, ← Finmap.lookup_isSome, h]

/-- Keeps the entries that pass the test. -/
def sift (p : K → V → Bool) (t : Table K V) : Table K V :=
  ⟨t.entries.filter fun e => p e.1 e.2, by
    have hkeys := t.nodupKeys
    generalize t.entries = entries at hkeys
    induction entries using Quotient.inductionOn with
    | h l =>
      rw [Multiset.quot_mk_to_coe, Multiset.coe_nodupKeys] at hkeys
      rw [Multiset.quot_mk_to_coe, Multiset.filter_coe, Multiset.coe_nodupKeys]
      exact hkeys.sublist List.filter_sublist⟩

theorem lookup_sift (p : K → V → Bool) (t : Table K V) (k : K) :
    (t.sift p).lookup k = (t.lookup k).filter (p k) := by
  ext v
  rw [Finmap.lookup_eq_some_iff, Option.filter_eq_some_iff, Finmap.lookup_eq_some_iff]
  exact Multiset.mem_filter

end Table
end Morton
