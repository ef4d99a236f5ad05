import Mathlib.Data.List.Sort

/-! Lists that are sorted by a key of their elements. -/

namespace TektonPipeline.Sorting
open List

section
variable {α κ : Type} [LinearOrder κ] {key : α → κ}

theorem total_key (key : α → κ) : Std.Total fun a b : α => key a ≤ key b :=
  ⟨fun a b => le_total (key a) (key b)⟩

theorem trans_key (key : α → κ) : IsTrans α fun a b : α => key a ≤ key b :=
  ⟨fun _ _ _ h h' => le_trans h h'⟩

theorem pairwise_sort (key : α → κ) (l : List α) :
    (l.insertionSort fun a b => key a ≤ key b).Pairwise fun a b => key a ≤ key b := by
  have := total_key key
  have := trans_key key
  exact pairwise_insertionSort _ l

/-- By keys that are distinct a list has only one order. -/
theorem sort_eq_of_perm {l l' : List α} (hperm : l.Perm l') (hkeys : (l'.map key).Nodup) :
    l.insertionSort (fun a b => key a ≤ key b) = l'.insertionSort fun a b => key a ≤ key b := by
  have hsorted := (perm_insertionSort (fun a b => key a ≤ key b) l).trans
    (hperm.trans (perm_insertionSort (fun a b => key a ≤ key b) l').symm)
  refine hsorted.eq_of_pairwise (fun a b ha hb hab hba => ?_) (pairwise_sort key l)
    (pairwise_sort key l')
  have ha' : a ∈ l' := hperm.mem_iff.mp ((mem_insertionSort _).mp ha)
  have hb' : b ∈ l' := (mem_insertionSort _).mp hb
  exact inj_on_of_nodup_map hkeys ha' hb' (le_antisymm hab hba)

theorem sort_eq_self_iff {l : List α} :
    l.insertionSort (fun a b => key a ≤ key b) = l ↔ l.Pairwise fun a b => key a ≤ key b := by
  constructor
  · intro h
    have hsorted := pairwise_sort key l
    rwa [h] at hsorted
  · exact List.Pairwise.insertionSort_eq

end

/-- Lists with the same images are equal where no image is shared. -/
theorem eq_of_map_eq {α β : Type} {f : α → β} {l l' : List α} (hperm : l.Perm l')
    (hnodup : (l'.map f).Nodup) (h : l.map f = l'.map f) : l = l' := by
  have hinj := inj_on_of_nodup_map hnodup
  refine ext_getElem hperm.length_eq fun i hi hi' => ?_
  have heq : f l[i] = f l'[i] := by
    have hget := congrArg (fun x => x[i]?) h
    simpa [hi, hi'] using hget
  exact hinj (hperm.mem_iff.mp (getElem_mem hi)) (getElem_mem hi') heq

end TektonPipeline.Sorting
