/-
  File:      Rabbits/Lib/KeyTable.lean
  Subject:   A compacted array of entries with distinct keys.

  The array is a list; an entry is found by its key (`List.findIdx?`), changed in place
  (`List.modify`), appended, or deleted by shifting what is behind it (`List.eraseIdx`).

  * `Distinct` -- no two entries have one key, kept by every operation;
  * `find_some`, `find_none` -- what a search says;
  * `mem_eraseIdx_iff`, `mem_modify_iff` -- the entries after a deletion and after a change;
  * `length_le_of_holders` -- entries held by different holders are at most as many as these.
-/
import Mathlib.Data.List.Nodup
import Mathlib.Data.Fintype.Card

namespace Lib

universe u v

variable {ε : Type u} {α : Type v}

/-- No two entries have one key. -/
def Distinct (key : ε → α) (t : List ε) : Prop := (t.map key).Nodup

instance [DecidableEq α] (key : ε → α) (t : List ε) : Decidable (Distinct key t) := by
  unfold Distinct
  infer_instance

variable {key : ε → α} {t : List ε}

theorem find_some [DecidableEq α] {k : α} {i : Nat} (h : t.findIdx? (key · == k) = some i) :
    ∃ hi : i < t.length, key t[i] = k := by
  obtain ⟨hi, hk, -⟩ := List.findIdx?_eq_some_iff_getElem.mp h
  exact ⟨hi, by simpa using hk⟩

theorem find_none [DecidableEq α] {k : α} (h : t.findIdx? (key · == k) = none) :
    ∀ e ∈ t, key e ≠ k := by
  intro e he hk
  have := List.findIdx?_eq_none_iff.mp h e he
  simp [hk] at this

namespace Distinct

theorem nil : Distinct key [] := List.nodup_nil

/-- One key, one place. -/
theorem getElem_inj (h : Distinct key t) {i j : Nat} {hi : i < t.length} {hj : j < t.length}
    (hk : key t[i] = key t[j]) : i = j := by
  have hi' : i < (t.map key).length := by simpa using hi
  have hj' : j < (t.map key).length := by simpa using hj
  have hk' : (t.map key)[i] = (t.map key)[j] := by simpa using hk
  exact (List.Nodup.getElem_inj_iff h).mp hk'

theorem mem_inj (h : Distinct key t) {e e' : ε} (he : e ∈ t) (he' : e' ∈ t) (hk : key e = key e') :
    e = e' :=
  List.inj_on_of_nodup_map h he he' hk

/-- The first entry with the key of `e` is `e`. -/
theorem find?_key [DecidableEq α] (h : Distinct key t) {e : ε} (he : e ∈ t) :
    t.find? (key · == key e) = some e := by
  cases hf : t.find? (key · == key e) with
  | none => exact absurd (beq_self_eq_true (key e)) (List.find?_eq_none.mp hf e he)
  | some e' =>
      have hk : key e' = key e := by simpa using List.find?_some hf
      rw [h.mem_inj (List.mem_of_find?_eq_some hf) he hk]

theorem append (h : Distinct key t) {e : ε} (hnew : ∀ e' ∈ t, key e' ≠ key e) :
    Distinct key (t ++ [e]) := by
  rw [Distinct, List.map_append, List.nodup_append]
  refine ⟨h, by simp, fun k hk k' hk' => ?_⟩
  obtain ⟨e', he', rfl⟩ := List.mem_map.mp hk
  obtain rfl : k' = key e := by simpa using hk'
  exact hnew e' he'

theorem eraseIdx (h : Distinct key t) (i : Nat) : Distinct key (t.eraseIdx i) :=
  List.Nodup.sublist ((List.eraseIdx_sublist t i).map key) h

theorem modify (h : Distinct key t) (i : Nat) {f : ε → ε} (hf : ∀ e, key (f e) = key e) :
    Distinct key (t.modify i f) := by
  have hmap : (t.modify i f).map key = t.map key := by
    apply List.ext_getElem
    · simp
    · intro j hj _
      rw [List.getElem_map, List.getElem_map, List.getElem_modify]
      split
      · exact hf _
      · rfl
  rwa [Distinct, hmap]

/-- A deletion takes out the entry with that key. -/
theorem mem_eraseIdx_iff (h : Distinct key t) {i : Nat} (hi : i < t.length) {e : ε} :
    e ∈ t.eraseIdx i ↔ e ∈ t ∧ key e ≠ key t[i] := by
  rw [List.mem_eraseIdx_iff_getElem]
  constructor
  · intro hyp
    obtain ⟨j, hj, hne, rfl⟩ := hyp
    exact ⟨List.getElem_mem hj, fun hk => hne (h.getElem_inj hk)⟩
  · intro hyp
    obtain ⟨he, hk⟩ := hyp
    obtain ⟨j, hj, rfl⟩ := List.getElem_of_mem he
    exact ⟨j, hj, fun heq => hk (by simp [heq]), rfl⟩

/-- A change in place changes the entry with that key. -/
theorem mem_modify_iff (h : Distinct key t) {i : Nat} (hi : i < t.length) {f : ε → ε} {e : ε} :
    e ∈ t.modify i f ↔ e = f t[i] ∨ (e ∈ t ∧ key e ≠ key t[i]) := by
  constructor
  · intro he
    obtain ⟨j, hj, rfl⟩ := List.getElem_of_mem he
    rw [List.getElem_modify]
    split
    · next hij => exact .inl (by simp [hij])
    · next hij =>
        exact .inr ⟨List.getElem_mem _, fun hk => hij (h.getElem_inj hk).symm⟩
  · intro hor
    rcases hor with rfl | ⟨he, hk⟩
    · refine List.mem_of_getElem (i := i) (h := by simpa using hi) ?_
      rw [List.getElem_modify, if_pos rfl]
    · obtain ⟨j, hj, rfl⟩ := List.getElem_of_mem he
      refine List.mem_of_getElem (i := j) (h := by simpa using hj) ?_
      rw [List.getElem_modify, if_neg (fun heq => hk (by simp [heq]))]

end Distinct

/-- Entries each held by one of `n` holders, where a holder holds one key only. -/
theorem length_le_of_holders {n : Nat} (hd : Distinct key t) (Holds : Fin n → α → Prop)
    (hheld : ∀ e ∈ t, ∃ c, Holds c (key e))
    (hone : ∀ c k k', Holds c k → Holds c k' → k = k') : t.length ≤ n := by
  have hheld' : ∀ i : Fin t.length, ∃ c, Holds c (key t[i]) := fun i =>
    hheld _ (List.getElem_mem i.isLt)
  choose holder hholder using hheld'
  have hinj : Function.Injective holder := fun i j heq => by
    have hk := hone _ _ _ (hholder i) (heq ▸ hholder j)
    exact Fin.ext (hd.getElem_inj hk)
  simpa using Fintype.card_le_of_injective holder hinj

end Lib
