import Mathlib.Data.List.AList
import Mathlib.Tactic

/-!
# Bounded Hash Maps

A hash map with a fixed number of entries, as BPF programs share it between CPUs:
a lookup, an update that replaces the entry of its key and fails when a new key
finds the map full, and a delete. Each is one atomic step.
-/

namespace LinuxMaxxing.Lib

universe u v

/-- A finite map with at most `cap` entries. -/
structure BpfHash (κ : Type u) (ν : Type v) (cap : Nat) where
  entries : AList fun _ : κ => ν
  bounded : entries.keys.length ≤ cap

namespace BpfHash

variable {κ : Type u} {ν : Type v} {cap : Nat} [DecidableEq κ]

def empty : BpfHash κ ν cap := ⟨∅, Nat.zero_le _⟩

def lookup (m : BpfHash κ ν cap) (k : κ) : Option ν := m.entries.lookup k

/-- There is an entry to replace or a free one. -/
def HasRoom (m : BpfHash κ ν cap) (k : κ) : Prop :=
  k ∈ m.entries ∨ m.entries.keys.length < cap

instance (m : BpfHash κ ν cap) (k : κ) : Decidable (m.HasRoom k) :=
  inferInstanceAs (Decidable (_ ∨ _))

theorem keys_insert_le {m : BpfHash κ ν cap} {k : κ} (h : m.HasRoom k) (v : ν) :
    (m.entries.insert k v).keys.length ≤ cap := by
  rw [AList.keys_insert, List.length_cons]
  rcases h with hmem | hlt
  · have hlen := List.length_erase_of_mem (AList.mem_keys.mp hmem)
    have hpos := List.length_pos_of_mem (AList.mem_keys.mp hmem)
    have hbound := m.bounded
    omega
  · have hle := List.length_erase_le (l := m.entries.keys) (a := k)
    omega

/-- `bpf_map_update_elem` with `BPF_ANY`; `none` when the map is full. -/
def update (m : BpfHash κ ν cap) (k : κ) (v : ν) : Option (BpfHash κ ν cap) :=
  if h : m.HasRoom k then some ⟨m.entries.insert k v, keys_insert_le h v⟩ else none

/-- `bpf_map_delete_elem` -/
def delete (m : BpfHash κ ν cap) (k : κ) : BpfHash κ ν cap :=
  ⟨m.entries.erase k, by
    rw [AList.keys_erase]
    exact le_trans List.length_erase_le m.bounded⟩

@[simp] theorem lookup_empty (k : κ) : (empty : BpfHash κ ν cap).lookup k = none :=
  AList.lookup_empty k

theorem update_of_hasRoom {m : BpfHash κ ν cap} {k : κ} (h : m.HasRoom k) (v : ν) :
    ∃ m', m.update k v = some m' ∧ ∀ j, m'.lookup j = if j = k then some v else m.lookup j := by
  refine ⟨_, dif_pos h, fun j => ?_⟩
  by_cases hj : j = k
  · rw [if_pos hj, hj]
    exact AList.lookup_insert _
  · rw [if_neg hj]
    exact AList.lookup_insert_ne hj

theorem lookup_delete (m : BpfHash κ ν cap) (k j : κ) :
    (m.delete k).lookup j = if j = k then none else m.lookup j := by
  by_cases hj : j = k
  · rw [if_pos hj, hj]
    exact AList.lookup_erase _ _
  · rw [if_neg hj]
    exact AList.lookup_erase_ne hj

end BpfHash

end LinuxMaxxing.Lib
