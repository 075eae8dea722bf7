import RecordLambda.OrderedMap
import Mathlib.Data.List.Induction
import Mathlib.Data.List.Nodup
import Mathlib.Data.List.Perm.Subperm
import Mathlib.Tactic.Lemma

/-!
# Ordered maps as maps

What a key stands for says all about a map except the order of its keys. Of several entries for one
key the last counts, and maps are equal as maps just if every key stands for the same in both.
-/

namespace RecordLambda

namespace OrderedMap

/-- No entry is repeated. -/
lemma nodup_entries {κ α : Type} (m : OrderedMap κ α) : m.entries.Nodup :=
  List.Nodup.of_map Prod.fst m.nodup

variable {κ α : Type} [DecidableEq κ] {m n : OrderedMap κ α} {k : κ} {a : α}

/-- An entry is what its key stands for. -/
lemma get?_of_mem (mem : (k, a) ∈ m.entries) : m.get? k = some a := by
  obtain ⟨es, nd⟩ := m
  show find k es = some a
  induction es with
  | nil => cases mem
  | cons e rest ih =>
    obtain ⟨k', a'⟩ := e
    obtain ⟨out, nd⟩ := List.nodup_cons.1 nd
    rcases List.mem_cons.1 mem with eq | mem
    · cases eq
      exact if_pos rfl
    · have ne : k' ≠ k := by
        rintro rfl
        exact out (List.mem_map.2 ⟨_, mem, rfl⟩)
      exact (if_neg ne).trans (ih nd mem)

/-- What is found is an entry. -/
lemma mem_of_find {es : List (κ × α)} (eq : find k es = some a) : (k, a) ∈ es := by
  induction es with
  | nil => cases eq
  | cons e rest ih =>
    obtain ⟨k', a'⟩ := e
    rw [find] at eq
    split at eq
    case isTrue e =>
      cases e
      cases eq
      exact List.mem_cons_self ..
    case isFalse _ => exact List.mem_cons_of_mem _ (ih eq)

/-- The entries are what the keys map to. -/
lemma mem_entries_iff : (k, a) ∈ m.entries ↔ m.get? k = some a :=
  ⟨get?_of_mem, mem_of_find⟩

/-- Of the entries for one key the last counts. -/
lemma get?_ofList (es : List (κ × α)) (k : κ) : (ofList es).get? k = find k es.reverse := by
  induction es using List.reverseRecOn with
  | nil => rfl
  | append_singleton es e ih =>
    obtain ⟨k', a⟩ := e
    have last : ofList (es ++ [(k', a)]) = (ofList es).insert k' a := by
      rw [ofList, List.foldl_append]
      rfl
    rw [last, get?_insert, ih, List.reverse_append]
    show _ = if k' = k then some a else find k es.reverse
    simp only [eq_comm]

/-- The number of keys makes up for looking at the entries of one side only. -/
lemma same_iff [DecidableEq α] : m.same n ↔ ∀ k, m.get? k = n.get? k := by
  have sub : (m.entries.all fun (k, a) => n.get? k == some a) ↔ m.entries ⊆ n.entries := by
    rw [List.all_eq_true]
    constructor
    · rintro all ⟨k, a⟩ mem
      exact mem_entries_iff.2 (eq_of_beq (all (k, a) mem))
    · rintro sub ⟨k, a⟩ mem
      exact beq_iff_eq.2 (mem_entries_iff.1 (sub mem))
  rw [same, Bool.and_eq_true_iff, sub, beq_iff_eq]
  constructor
  · rintro ⟨size, sub⟩ k
    have perm : m.entries.Perm n.entries :=
      (m.nodup_entries.subperm sub).perm_of_length_le (Nat.le_of_eq size.symm)
    apply Option.ext
    intro a
    rw [← mem_entries_iff, ← mem_entries_iff, perm.mem_iff]
  · intro get
    have perm : m.entries.Perm n.entries := by
      rw [List.perm_ext_iff_of_nodup m.nodup_entries n.nodup_entries]
      rintro ⟨k, a⟩
      rw [mem_entries_iff, mem_entries_iff, get]
    exact ⟨perm.length_eq, perm.subset⟩

end OrderedMap

end RecordLambda
