/-!
# The order of texts

Texts are put in the order of their characters, which is that of their UTF-8 bytes.
-/

namespace PacketRpc.Text

theorem not_lt_iff {s t : String} : (!decide (t < s)) = true ↔ s ≤ t := by
  rw [Bool.not_eq_true', decide_eq_false_iff_not, String.not_lt]

/-- What is sorted by its texts has them in ascending order. -/
theorem pairwise_mergeSort {α : Type} (text : α → String) (as : List α) :
    (as.mergeSort fun a b => !decide (text b < text a)).Pairwise fun a b => text a ≤ text b := by
  refine (List.pairwise_mergeSort (fun a b c hab hbc => ?_) (fun a b => ?_) as).imp not_lt_iff.1
  · rw [not_lt_iff] at *
    exact String.le_trans hab hbc
  · rw [Bool.or_eq_true, not_lt_iff, not_lt_iff]
    exact String.le_total _ _

end PacketRpc.Text
