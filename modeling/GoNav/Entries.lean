namespace GoNav

variable {κ α : Type} [BEq κ] {key : κ} {value : α} {entries : List (κ × α)}

/-- Puts a value under a key, in the place of the one that is there, or behind all others. -/
def putEntry (key : κ) (value : α) : List (κ × α) → List (κ × α)
  | [] => [(key, value)]
  | entry :: rest =>
    if key == entry.1 then (entry.1, value) :: rest else entry :: putEntry key value rest

theorem putEntry_of_lookup_eq_none (missing : entries.lookup key = none) :
    putEntry key value entries = entries ++ [(key, value)] := by
  induction entries with
  | nil => rfl
  | cons entry rest ih =>
    obtain ⟨other, _⟩ := entry
    rw [List.lookup_cons] at missing
    split at missing
    · cases missing
    · rename_i different
      simp only [putEntry, different, Bool.false_eq_true, if_false, ih missing, List.cons_append]

section

variable [LawfulBEq κ]

theorem mem_keys_putEntry {other : κ} :
    other ∈ (putEntry key value entries).map Prod.fst ↔ other = key ∨ other ∈ entries.map Prod.fst := by
  induction entries with
  | nil => simp [putEntry]
  | cons entry rest ih =>
    rw [putEntry]
    split
    · rename_i same
      simp [eq_of_beq same]
    · rw [List.map_cons, List.mem_cons, ih, List.map_cons, List.mem_cons]
      exact or_left_comm

theorem nodup_keys_putEntry (distinct : (entries.map Prod.fst).Nodup) :
    ((putEntry key value entries).map Prod.fst).Nodup := by
  induction entries with
  | nil => simp [putEntry]
  | cons entry rest ih =>
    obtain ⟨fresh, others⟩ := List.nodup_cons.mp distinct
    rw [putEntry]
    split
    · exact distinct
    · rename_i different
      refine List.nodup_cons.mpr ⟨fun member => ?_, ih others⟩
      rcases mem_keys_putEntry.mp member with same | later
      · exact different (beq_iff_eq.mpr same.symm)
      · exact fresh later

end

end GoNav
