import Mathlib.Data.List.AList
import Mathlib.Data.Finset.Card

/-! String-keyed finite maps with an unspecified visiting order. A `range` loop
may see the keys of a map in any order; the order is a parameter of the loop and
carries its own proof that every key is visited exactly once. -/
namespace OpenTorque

abbrev Assoc (V : Type) := AList (fun _ : String => V)

instance (k : String) (m : Assoc V) : Decidable (k ∈ m) :=
  decidable_of_iff (k ∈ m.keys) AList.mem_keys.symm

/-- One choice of the order in which a loop visits the keys of a map. -/
structure RangeOrder where
  visit : List String → List String
  perm : ∀ keys, (visit keys).Perm keys

namespace RangeOrder

def listed : RangeOrder := ⟨id, fun _ => .refl _⟩

/-- The order that begins with one key. -/
def first (k : String) : RangeOrder where
  visit keys := if k ∈ keys then k :: keys.erase k else keys
  perm keys := by
    split
    case isTrue listed => exact (List.perm_cons_erase listed).symm
    case isFalse => exact .refl _

@[simp] theorem mem_visit (order : RangeOrder) {keys : List String} :
    k ∈ order.visit keys ↔ k ∈ keys := (order.perm keys).mem_iff

theorem nodup_visit (order : RangeOrder) {keys : List String} (nodup : keys.Nodup) :
    (order.visit keys).Nodup := (order.perm keys).nodup_iff.mpr nodup

end RangeOrder

namespace Assoc
variable {V W : Type}

/-- The keys of a map in the order a loop over it visits them. -/
def range (order : RangeOrder) (m : Assoc V) : List String := order.visit m.keys

@[simp] theorem mem_range (order : RangeOrder) (m : Assoc V) : k ∈ m.range order ↔ k ∈ m := by
  simp [range, AList.mem_keys]

@[simp] theorem range_empty (order : RangeOrder) : (∅ : Assoc V).range order = [] :=
  (order.perm []).eq_nil

theorem nodup_range (order : RangeOrder) (m : Assoc V) : (m.range order).Nodup :=
  order.nodup_visit m.keys_nodup

theorem mem_of_lookup {m : Assoc V} (found : m.lookup k = some v) : k ∈ m :=
  AList.lookup_isSome.mp (by simp [found])

theorem exists_lookup {m : Assoc V} (present : k ∈ m) : ∃ v, m.lookup k = some v :=
  Option.isSome_iff_exists.mp (AList.lookup_isSome.mpr present)

/-- A fact about every entry, in the form in which it can be evaluated. -/
theorem forall_lookup {m : Assoc V} {P : String → V → Prop} :
    (∀ k v, m.lookup k = some v → P k v) ↔ ∀ e ∈ m.entries, P e.1 e.2 := by
  constructor
  · rintro all ⟨k, v⟩ member
    exact all k v (AList.mem_lookup_iff.mpr member)
  · intro all k v found
    exact all ⟨k, v⟩ (AList.mem_lookup_iff.mp found)

instance {m : Assoc V} {P : String → V → Prop} [∀ k v, Decidable (P k v)] :
    Decidable (∀ k v, m.lookup k = some v → P k v) :=
  decidable_of_iff (∀ e ∈ m.entries, P e.1 e.2) forall_lookup.symm

instance {m : Assoc V} {P : String → Prop} [∀ k, Decidable (P k)] : Decidable (∀ k ∈ m, P k) :=
  decidable_of_iff (∀ k ∈ m.keys, P k) (by simp only [AList.mem_keys])

theorem lookup_insert_ite (m : Assoc V) (k x : String) (v : V) :
    (m.insert k v).lookup x = if x = k then some v else m.lookup x := by
  by_cases same : x = k
  · subst same; simp
  · simp [same]

theorem lookup_erase_ite (m : Assoc V) (k x : String) :
    (m.erase k).lookup x = if x = k then none else m.lookup x := by
  by_cases same : x = k
  · subst same; simp
  · simp [same]

/-- A loop that enters pairs, of which those with one key all have the same value. -/
theorem lookup_foldl_insert {entries : List (String × V)} {x : String} {value : Option V}
    (all : ∀ e ∈ entries, e.1 = x → value = some e.2) (m : Assoc V) :
    (entries.foldl (fun m e => m.insert e.1 e.2) m).lookup x =
      if x ∈ entries.map (·.1) then value else m.lookup x := by
  induction entries generalizing m with
  | nil => simp
  | cons e entries ih =>
    obtain ⟨first, rest⟩ := List.forall_mem_cons.mp all
    rw [List.foldl_cons, ih rest, lookup_insert_ite]
    simp only [List.map_cons, List.mem_cons]
    by_cases here : x = e.1
    · simp [← here, first here.symm]
    · simp only [here, if_false, false_or]

def members (m : Assoc V) : Finset String := m.keys.toFinset

@[simp] theorem mem_members {m : Assoc V} : k ∈ m.members ↔ k ∈ m := by
  simp [members, AList.mem_keys]

@[simp] theorem members_insert (m : Assoc V) (k : String) (v : V) :
    members (m.insert k v) = insert k m.members := by
  ext x
  simp

@[simp] theorem members_erase (m : Assoc V) (k : String) :
    members (m.erase k) = m.members.erase k := by
  ext x
  simp

def chosen (m : Assoc V) (wanted : V → Bool) : List String :=
  (m.entries.filter fun e => wanted e.2).map (·.1)

theorem mem_chosen {m : Assoc V} {wanted : V → Bool} :
    k ∈ m.chosen wanted ↔ ∃ v, m.lookup k = some v ∧ wanted v = true := by
  constructor
  · intro member
    obtain ⟨⟨key, v⟩, listed, rfl⟩ := List.mem_map.mp member
    obtain ⟨listed, holds⟩ := List.mem_filter.mp listed
    exact ⟨v, AList.mem_lookup_iff.mpr listed, holds⟩
  · rintro ⟨v, found, holds⟩
    exact List.mem_map.mpr ⟨⟨k, v⟩, List.mem_filter.mpr ⟨AList.mem_lookup_iff.mp found, holds⟩, rfl⟩

theorem nodup_chosen (m : Assoc V) (wanted : V → Bool) : (m.chosen wanted).Nodup :=
  m.keys_nodup.sublist (List.filter_sublist.map _)

theorem length_filter_entries (m : Assoc V) (wanted : V → Bool) :
    (m.entries.filter fun e => wanted e.2).length = (m.chosen wanted).length := by
  simp [chosen]

theorem card_members (m : Assoc V) : m.members.card = m.keys.length :=
  List.toFinset_card_of_nodup m.keys_nodup

end Assoc
end OpenTorque
