/- What a selection under a budget is: some of the items, each with its own label, whose blocks stay
   within the budget. -/

import ProofRay.Evidence.Pack

namespace ProofRay.Evidence

open Lib (Dict)
open Lib.Guard

variable {σ : Type}

def spent (pairs : List (EvidenceItem σ × String)) : Nat :=
  ("\n\n".intercalate (pairs.map block)).length

theorem length_intercalate (blocks : List String) :
    ("\n\n".intercalate blocks).length =
      (blocks.map String.length).sum + 2 * (blocks.length - 1) := by
  induction blocks with
  | nil => rfl
  | cons first rest ih =>
    cases rest with
    | nil => simp [String.intercalate_singleton]
    | cons next rest =>
      rw [String.intercalate_cons_cons, String.length_append, String.length_append, ih]
      have fence : "\n\n".length = 2 := by decide
      simp only [List.map_cons, List.sum_cons, List.length_cons, fence]
      omega

theorem spent_perm {pairs pairs' : List (EvidenceItem σ × String)} (same : pairs.Perm pairs') :
    spent pairs = spent pairs' := by
  unfold spent
  rw [length_intercalate, length_intercalate, List.length_map, List.length_map, same.length_eq]
  have blocks := (same.map block).map String.length
  rw [blocks.sum_nat]

theorem spent_append (chosen : List (EvidenceItem σ × String)) (pair : EvidenceItem σ × String) :
    spent (chosen ++ [pair]) =
      spent chosen + (if chosen.isEmpty then 0 else 2) + (block pair).length := by
  unfold spent
  rw [length_intercalate, length_intercalate]
  cases chosen with
  | nil => simp
  | cons first rest =>
    simp only [List.map_append, List.map_cons, List.map_nil, List.sum_append, List.sum_cons,
      List.sum_nil, List.length_append, List.length_cons, List.length_nil, List.length_map,
      List.isEmpty_cons, if_false, Bool.false_eq_true]
    omega

theorem offer_spec (merge : Merge σ) {maxChars : Int} {chosen : List (EvidenceItem σ × String)}
    (fits : (spent chosen : Int) ≤ maxChars) (rest : List (EvidenceItem σ × String)) :
    ∃ taken, offer merge maxChars (spent chosen) chosen rest = chosen ++ taken ∧
      taken.Sublist rest ∧ (spent (chosen ++ taken) : Int) ≤ maxChars := by
  have skip {chosen rest : List (EvidenceItem σ × String)} {pair : EvidenceItem σ × String}
      (kept : ∃ taken, offer merge maxChars (spent chosen) chosen rest = chosen ++ taken ∧
        taken.Sublist rest ∧ (spent (chosen ++ taken) : Int) ≤ maxChars) :
      ∃ taken, offer merge maxChars (spent chosen) chosen rest = chosen ++ taken ∧
        taken.Sublist (pair :: rest) ∧ (spent (chosen ++ taken) : Int) ≤ maxChars := by
    obtain ⟨taken, same, sub, fits⟩ := kept
    exact ⟨taken, same, sub.trans (List.sublist_cons_self _ _), fits⟩
  induction rest generalizing chosen with
  | nil => exact ⟨[], by rw [offer, List.append_nil], List.Sublist.refl _, by
      rwa [List.append_nil]⟩
  | cons pair rest ih =>
    have step : offer merge maxChars (spent chosen) chosen (pair :: rest) =
        if (spent (chosen ++ [pair]) : Int) > maxChars then
          offer merge maxChars (spent chosen) chosen rest
        else if chosen.any fun other =>
            merge.similar (neutralized pair.1.text) (neutralized other.1.text) then
          offer merge maxChars (spent chosen) chosen rest
        else offer merge maxChars (spent (chosen ++ [pair])) (chosen ++ [pair]) rest := by
      rw [spent_append]
      rfl
    rw [step]
    by_cases room : (spent (chosen ++ [pair]) : Int) > maxChars
    · rw [if_pos room]
      exact skip (ih fits)
    · rw [if_neg room]
      split
      · exact skip (ih fits)
      · obtain ⟨taken, same, sub, fits'⟩ := ih (not_lt.mp room)
        rw [List.append_assoc] at same fits'
        exact ⟨pair :: taken, same, sub.cons_cons _, fits'⟩

namespace EvidencePack

variable (pack : EvidencePack σ)

theorem map_fst_pairs : pack.pairs.map Prod.fst = pack.items :=
  List.map_fst_zip (by rw [pack.aligned.2])

theorem map_identity_pairs :
    pack.pairs.map (fun pair => pair.1.identity) = pack.items.map EvidenceItem.identity := by
  rw [← pack.map_fst_pairs, List.map_map]
  rfl

theorem citationOf_eq {pair : EvidenceItem σ × String} (member : pair ∈ pack.pairs) :
    pack.citationOf pair.1 = pair.2 := by
  have keys : ((pack.pairs.map fun pair => (pair.1.identity, pair.2)).map Prod.fst).Nodup := by
    rw [List.map_map]
    change (pack.pairs.map fun pair => pair.1.identity).Nodup
    rw [pack.map_identity_pairs]
    exact pack.ordered.1
  have found : (Dict.empty.update (pack.pairs.map fun pair => (pair.1.identity, pair.2))).get
      pair.1.identity = some pair.2 :=
    Dict.get_update_of_mem keys (List.mem_map.mpr ⟨pair, member, rfl⟩)
  unfold citationOf
  simp only [found, Option.getD_some]

variable {pack} {merge : Merge σ} {maxChars : Int} {selected : List (EvidenceItem σ)}

theorem selected_spec (picked : pack.budgetedItems merge maxChars = .ok selected) :
    selected.Sublist pack.items ∧ ((pack.body selected).length : Int) ≤ maxChars := by
  obtain ⟨_, positive, listed⟩ := bind_eq_ok.mp picked
  have within : (spent ([] : List (EvidenceItem σ × String)) : Int) ≤ maxChars :=
    (require_eq_ok.mp positive).le
  obtain ⟨taken, same, sub, fits⟩ := offer_spec merge within (merge.order pack.pairs)
  have listed' : pack.items.filter (fun item => item.identity ∈ taken.map fun pair =>
      pair.1.identity) = selected := by
    rw [← List.nil_append taken, ← same]
    exact Except.ok.inj listed
  rw [List.nil_append] at fits
  have distinct : (pack.pairs.map fun pair => pair.1.identity).Nodup := by
    rw [pack.map_identity_pairs]
    exact pack.ordered.1
  have inside : ∀ pair ∈ taken, pair ∈ pack.pairs := fun pair member =>
    (merge.perm _).mem_iff.mp (sub.subset member)
  -- the pairs of the selected items are those that were chosen
  have chosen : (pack.pairs.filter fun pair => pair.1.identity ∈ taken.map fun pair =>
      pair.1.identity).Perm taken := by
    refine (List.perm_ext_iff_of_nodup (distinct.of_map _ |>.filter _) ?_).mpr fun pair => ?_
    · exact ((merge.perm pack.pairs).nodup_iff.mpr (distinct.of_map _)).sublist sub
    · rw [List.mem_filter, decide_eq_true_eq, List.mem_map]
      constructor
      · rintro ⟨member, other, taken', same⟩
        exact List.inj_on_of_nodup_map distinct (inside other taken') member same ▸ taken'
      · intro member
        exact ⟨inside pair member, pair, member, rfl⟩
  have paired : selected.map (fun item => (item, pack.citationOf item)) =
      pack.pairs.filter fun pair => pair.1.identity ∈ taken.map fun pair => pair.1.identity := by
    rw [← listed', ← pack.map_fst_pairs, List.filter_map, List.map_map]
    refine (List.map_congr_left fun pair member => ?_).trans (List.map_id _)
    exact Prod.ext rfl (pack.citationOf_eq (List.mem_filter.mp member).1)
  refine ⟨listed' ▸ List.filter_sublist, ?_⟩
  have spent_body : (pack.body selected).length = spent taken := by
    rw [← spent_perm chosen, ← paired]
    unfold EvidencePack.body spent
    rw [List.map_map]
    rfl
  rw [spent_body]
  exact fits

theorem body_ne_empty (nonempty : selected ≠ []) : pack.body selected ≠ "" := by
  intro empty
  obtain ⟨item, rest, rfl⟩ := List.exists_cons_of_ne_nil nonempty
  have long := congrArg String.length empty
  have bracket : "[".length = 1 := by decide
  unfold EvidencePack.body block at long
  rw [length_intercalate, List.map_cons, List.map_cons, List.sum_cons] at long
  simp only [String.length_append, bracket, String.length_empty] at long
  omega

end EvidencePack

end ProofRay.Evidence
