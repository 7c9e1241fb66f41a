import Mathlib.Data.List.Forall2
import Mathlib.Data.List.Induction
import Mathlib.Data.String.Basic
import RavenLang.Value

/-!
# Fields

The fields of an object stand in increasing order of their keys, one for each key, so two lists of fields
that read alike are alike field by field. An object that is built of entries keeps the last entry of each
key, whatever the order of the entries.
-/

namespace RavenLang

/-- Keys in strictly increasing order, so each of them stands once. -/
def Increasing (fields : List (String × Value)) : Prop := fields.Pairwise fun p q => p.1 < q.1

/-- The last entry with the key `k` has the value `x`. -/
def LastEntry (entries : List (String × Value)) (k : String) (x : Value) : Prop :=
  ∃ before behind, entries = before ++ (k, x) :: behind ∧ ∀ p ∈ behind, p.1 ≠ k

/-! ## Fields that are put in their place -/

theorem lookup_cons_eq_ite (l m : String) (y : Value) (fields : List (String × Value)) :
    ((m, y) :: fields).lookup l = if l = m then some y else fields.lookup l := by
  by_cases h : l = m
  · simp [h]
  · simp [List.lookup_cons, beq_false_of_ne h, h]

theorem lookup_insertField (k : String) (x : Value) (fields : List (String × Value)) (l : String) :
    (insertField k x fields).lookup l = if l = k then some x else fields.lookup l := by
  induction fields with
  | nil => exact lookup_cons_eq_ite l k x []
  | cons p fields ih =>
    obtain ⟨m, y⟩ := p
    unfold insertField
    split
    · exact lookup_cons_eq_ite l k x _
    · split
      · next h =>
        subst h
        rw [lookup_cons_eq_ite, lookup_cons_eq_ite]
        split <;> rfl
      · next hne =>
        rw [lookup_cons_eq_ite, lookup_cons_eq_ite, ih]
        by_cases hm : l = m
        · subst hm
          simp [Ne.symm hne]
        · simp [hm]

theorem mem_keys_insertField {k l : String} {x : Value} {fields : List (String × Value)} :
    l ∈ (insertField k x fields).map (·.1) ↔ l = k ∨ l ∈ fields.map (·.1) := by
  induction fields with
  | nil => simp [insertField]
  | cons p fields ih =>
    obtain ⟨m, y⟩ := p
    unfold insertField
    split
    · simp
    · split
      · next h => simp [h]
      · rw [List.map_cons, List.mem_cons, ih, List.map_cons, List.mem_cons, or_left_comm]

theorem Increasing.insert {fields : List (String × Value)} (h : Increasing fields) (k : String) (x : Value) :
    Increasing (insertField k x fields) := by
  unfold Increasing at *
  induction fields with
  | nil => simp [insertField]
  | cons p fields ih =>
    obtain ⟨m, y⟩ := p
    obtain ⟨hm, hfields⟩ := List.pairwise_cons.1 h
    unfold insertField
    split
    · next hlt =>
      apply List.Pairwise.cons _ h
      intro q hq
      rcases List.mem_cons.1 hq with rfl | hq
      · exact hlt
      · exact hlt.trans (hm q hq)
    · next hnot =>
      split
      · next heq =>
        subst heq
        exact .cons hm hfields
      · next hne =>
        apply List.Pairwise.cons _ (ih hfields)
        intro q hq
        rcases mem_keys_insertField.1 (List.mem_map_of_mem hq) with hk | hq
        · exact hk ▸ lt_of_le_of_ne (not_lt.1 hnot) (Ne.symm hne)
        · obtain ⟨q', hq', hkey⟩ := List.mem_map.1 hq
          exact hkey ▸ hm q' hq'

/-! ## Objects of entries -/

theorem fieldsOfEntries_concat (entries : List (String × Value)) (k : String) (x : Value) :
    fieldsOfEntries (entries ++ [(k, x)]) = insertField k x (fieldsOfEntries entries) := by
  simp [fieldsOfEntries]

theorem increasing_fieldsOfEntries (entries : List (String × Value)) : Increasing (fieldsOfEntries entries) := by
  induction entries using List.reverseRecOn with
  | nil => exact .nil
  | append_singleton entries e ih =>
    rw [fieldsOfEntries_concat]
    exact ih.insert _ _

theorem mem_keys_fieldsOfEntries {entries : List (String × Value)} {k : String} :
    k ∈ (fieldsOfEntries entries).map (·.1) ↔ k ∈ entries.map (·.1) := by
  induction entries using List.reverseRecOn with
  | nil => rfl
  | append_singleton entries e ih =>
    rw [fieldsOfEntries_concat, mem_keys_insertField, ih]
    simp [or_comm]

theorem not_lastEntry_nil {k : String} {x : Value} : ¬ LastEntry [] k x := by
  intro h
  obtain ⟨before, behind, h, -⟩ := h
  simp at h

theorem lastEntry_concat {entries : List (String × Value)} {k l : String} {x y : Value} :
    LastEntry (entries ++ [(l, y)]) k x ↔ k = l ∧ x = y ∨ k ≠ l ∧ LastEntry entries k x := by
  constructor
  · intro h
    obtain ⟨before, behind, h, hlast⟩ := h
    -- what stands behind the entry is nothing, or ends with the new one
    rcases List.eq_nil_or_concat behind with rfl | ⟨behind, e, rfl⟩
    · obtain ⟨-, he⟩ := List.append_inj' h rfl
      cases he
      exact .inl ⟨rfl, rfl⟩
    · rw [List.concat_eq_append] at h hlast
      have hsplit : entries ++ [(l, y)] = (before ++ (k, x) :: behind) ++ [e] := by simp [h]
      obtain ⟨hentries, he⟩ := List.append_inj' hsplit rfl
      cases he
      refine .inr ⟨?_, before, behind, hentries, fun p hp => hlast p (by simp [hp])⟩
      exact Ne.symm (hlast (l, y) (by simp))
  · rintro (⟨rfl, rfl⟩ | ⟨hne, before, behind, rfl, hlast⟩)
    · exact ⟨entries, [], rfl, by simp⟩
    · refine ⟨before, behind ++ [(l, y)], by simp, fun p hp => ?_⟩
      rcases List.mem_append.1 hp with hp | hp
      · exact hlast p hp
      · rw [List.mem_singleton.1 hp]
        exact Ne.symm hne

theorem lookup_fieldsOfEntries {entries : List (String × Value)} {k : String} {x : Value} :
    (fieldsOfEntries entries).lookup k = some x ↔ LastEntry entries k x := by
  induction entries using List.reverseRecOn with
  | nil => simp [fieldsOfEntries, not_lastEntry_nil]
  | append_singleton entries e ih =>
    rw [fieldsOfEntries_concat, lookup_insertField, lastEntry_concat]
    by_cases h : k = e.1
    · simp [h, eq_comm]
    · simp [h, ih]

/-! ## Lists of fields that read alike -/

theorem lookup_eq_none_of_lt_keys {k : String} {fields : List (String × Value)} (h : ∀ p ∈ fields, k < p.1) :
    fields.lookup k = none := by
  rw [List.lookup_eq_none_iff]
  intro p hp
  simpa using (h p hp).ne

theorem Increasing.key_le {k l : String} {w : Value} {b : List (String × Value)} (hb : Increasing ((l, w) :: b))
    (h : ((l, w) :: b).lookup k ≠ none) : l ≤ k := by
  apply not_lt.1
  intro hlt
  have hl := (List.pairwise_cons.1 hb).1
  exact h (lookup_eq_none_of_lt_keys (List.forall_mem_cons.2 ⟨hlt, fun q hq => hlt.trans (hl q hq)⟩))

theorem Increasing.forall₂ {R : Value → Value → Prop} {a b : List (String × Value)} (ha : Increasing a)
    (hb : Increasing b) (h : ∀ k, Option.Rel R (a.lookup k) (b.lookup k)) :
    List.Forall₂ (fun p q => p.1 = q.1 ∧ R p.2 q.2) a b := by
  induction a generalizing b with
  | nil =>
    cases b with
    | nil => exact .nil
    | cons q b =>
      have hq := h q.1
      rw [lookup_cons_eq_ite, if_pos rfl] at hq
      cases hq
  | cons p a ih =>
    obtain ⟨k, v⟩ := p
    have hk := h k
    rw [lookup_cons_eq_ite, if_pos rfl] at hk
    cases b with
    | nil => cases hk
    | cons q b =>
      obtain ⟨l, w⟩ := q
      have hl := h l
      rw [lookup_cons_eq_ite l l, if_pos rfl] at hl
      have hle : k ≤ l := ha.key_le fun hnone => by rw [hnone] at hl; cases hl
      have hle' : l ≤ k := hb.key_le fun hnone => by rw [hnone] at hk; cases hk
      obtain rfl : k = l := le_antisymm hle hle'
      obtain ⟨hltk, ha'⟩ := List.pairwise_cons.1 ha
      obtain ⟨hltl, hb'⟩ := List.pairwise_cons.1 hb
      rw [lookup_cons_eq_ite, if_pos rfl] at hk
      cases hk with
      | some hvw =>
        refine .cons ⟨rfl, hvw⟩ (ih ha' hb' fun m => ?_)
        by_cases hm : m = k
        · rw [hm, lookup_eq_none_of_lt_keys hltk, lookup_eq_none_of_lt_keys hltl]
          exact .none
        · have hrest := h m
          rwa [lookup_cons_eq_ite, lookup_cons_eq_ite, if_neg hm, if_neg hm] at hrest

theorem lookup_of_forall₂ {R : Value → Value → Prop} {a b : List (String × Value)}
    (h : List.Forall₂ (fun p q => p.1 = q.1 ∧ R p.2 q.2) a b) (k : String) :
    Option.Rel R (a.lookup k) (b.lookup k) := by
  induction h with
  | nil => exact .none
  | @cons p q a b hpq _ ih =>
    rw [List.lookup_cons, List.lookup_cons, ← hpq.1]
    cases k == p.1 with
    | true => exact .some hpq.2
    | false => exact ih

theorem Increasing.ext {a b : List (String × Value)} (ha : Increasing a) (hb : Increasing b)
    (h : ∀ k, a.lookup k = b.lookup k) : a = b := by
  have hrel : ∀ k, Option.Rel (· = ·) (a.lookup k) (b.lookup k) := by
    intro k
    rw [h k]
    cases b.lookup k with
    | none => exact .none
    | some v => exact .some rfl
  rw [← List.forall₂_eq_eq_eq]
  exact (ha.forall₂ hb hrel).imp fun p q hpq => Prod.ext hpq.1 hpq.2

end RavenLang
