import ClientSdk.Ledger.Script
import ClientSdk.Proofs.Table
import Mathlib.Data.Finset.Sort
import Mathlib.Data.String.Basic

/-!
# Sorted texts

Sorting by code point leaves no choice: a list of texts without repetition, once
sorted, is the sorted list of its set (`sortTexts_eq_sort`), and the keys of a
sorted table are the sorted list of the set of its keys (`keys_sorted`).  The order
of the list that was sorted is gone.
-/

namespace ClientSdk

theorem pairwise_sortTexts (texts : List String) :
    (sortTexts texts).Pairwise (· ≤ ·) := by
  unfold sortTexts
  refine (List.pairwise_mergeSort ?_ ?_ texts).imp fun h => of_decide_eq_true h
  · intro a b c hab hbc
    exact decide_eq_true (le_trans (of_decide_eq_true hab) (of_decide_eq_true hbc))
  · intro a b
    simpa using le_total a b

theorem eq_sort_of_pairwise {texts : List String} {S : Finset String}
    (hsorted : texts.Pairwise (· ≤ ·)) (hnd : texts.Nodup)
    (hmem : ∀ s, s ∈ texts ↔ s ∈ S) : texts = S.sort (· ≤ ·) := by
  refine List.Perm.eq_of_pairwise (fun a b _ _ hab hba => le_antisymm hab hba)
    hsorted (Finset.pairwise_sort S _) ?_
  refine (List.perm_ext_iff_of_nodup hnd (Finset.sort_nodup S _)).mpr ?_
  intro s
  rw [hmem, Finset.mem_sort]

theorem sortTexts_eq_sort {texts : List String} {S : Finset String}
    (hnd : texts.Nodup) (hmem : ∀ s, s ∈ texts ↔ s ∈ S) :
    sortTexts texts = S.sort (· ≤ ·) := by
  have hperm : (sortTexts texts).Perm texts := List.mergeSort_perm texts _
  refine eq_sort_of_pairwise (pairwise_sortTexts texts) (hperm.nodup_iff.mpr hnd) ?_
  intro s
  rw [hperm.mem_iff, hmem]

namespace Table

variable {α : Type}

theorem sorted_perm (t : Table α) : (sorted t).Perm t :=
  List.mergeSort_perm t _

theorem pairwise_keys_sorted (t : Table α) :
    (keys (sorted t)).Pairwise (· ≤ ·) := by
  unfold keys sorted
  rw [List.pairwise_map]
  refine (List.pairwise_mergeSort ?_ ?_ t).imp fun h => of_decide_eq_true h
  · intro p q r hpq hqr
    exact decide_eq_true (le_trans (of_decide_eq_true hpq) (of_decide_eq_true hqr))
  · intro p q
    simpa using le_total p.1 q.1

theorem keys_sorted {t : Table α} {S : Finset String} (hnd : (keys t).Nodup)
    (hmem : ∀ s, s ∈ keys t ↔ s ∈ S) : keys (sorted t) = S.sort (· ≤ ·) := by
  have hperm : (keys (sorted t)).Perm (keys t) := (sorted_perm t).map Prod.fst
  refine eq_sort_of_pairwise (pairwise_keys_sorted t) (hperm.nodup_iff.mpr hnd) ?_
  intro s
  rw [hperm.mem_iff, hmem]

end Table

end ClientSdk
